import SchemaGraft.CommandLine.Session
import SchemaGraft.Proofs.Schema.File
import SchemaGraft.Proofs.World.Steps

/-!
# Generating and Formatting

The stages that make a client: the generator is called once, and the formatter is asked for once after that,
if there is one and the generator has succeeded.

## Architecture

- **Formatting**: `Generation.perform_format`, which never fails; `Generation.afterFormatting` is the world
  that the formatter leaves, and `Generation.joined` the client.
- **Rendering**: `Generation.perform_render`, with the schema that the schema file describes.
- **Stages**: `Generation.perform_finish` and `Generation.perform_generate`.
- **Output**: what is printed leaves the surface of the world alone.
- **Clients**: `CommandLine.perform_generateClient`, and what it asks for: `CommandLine.steps_generateClient`.
-/

namespace SchemaGraft

namespace Generation

variable {host : Host} {registry : Registry} {c : Config}

/-! ## Formatting -/

/-- Does the formatter start and report success? -/
def formats (host : Host) (argv : List Text) (t : FileTree) : Bool :=
  match host.launch argv t with
  | .ok e => e.status = 0
  | .error _ => false

/-- What shows of a formatter: it is asked for, what it writes is passed on, and its failure is noted. -/
def formatterEvents (host : Host) (argv : List Text) (t : FileTree) : List Event :=
  host.starting argv t ::
    match host.launch argv t with
    | .ok e =>
      e.received ++
        if e.status = 0 then [] else [.noticed (.formatterFailed (argv.headD []) e.status)]
    | .error f => [.noticed (breakdown (argv.headD []) (Tool.startFault (argv.headD []) none f))]

theorem isPrintable_breakdown (tool : Text) (f : Fault) : (breakdown tool f).isPrintable = true := by
  unfold breakdown
  split <;> rfl

/-- **Formatting never fails**, whatever the formatter does. -/
theorem perform_format (host : Host) (argv : List Text) (w : World) :
    perform (format host argv) w =
      (.ok (formats host argv w.files),
        { files := host.filesAfter argv w.files
          trace := w.trace ++ formatterEvents host argv w.files }) := by
  rw [format, perform_bind, perform_tryCatch, map_eq_pure_bind, perform_bind, Tool.perform_run,
    formats, formatterEvents, Host.filesAfter]
  -- a formatter that cannot start is noted, and so is one that ends badly
  cases host.launch argv w.files with
  | error f =>
    dsimp only
    rw [perform_bind, Action.perform_note _ (isPrintable_breakdown _ _)]
    simp
  | ok e =>
    dsimp only [perform_pure]
    by_cases hstatus : e.status = 0
    · simp [hstatus]
    · rw [if_neg hstatus, perform_bind, Action.perform_note (.formatterFailed ..) rfl]
      simp [hstatus]

theorem filter_formatterEvents (host : Host) (argv : List Text) (t : FileTree) :
    (formatterEvents host argv t).filter Event.isStep = [host.starting argv t] := by
  rw [formatterEvents, List.filter_cons_of_pos rfl]
  cases host.launch argv t with
  | error f => rfl
  | ok e =>
    dsimp only
    rw [List.filter_append, e.filter_received]
    split <;> rfl

/-- The step that formats a client in the world in which it was generated, if there is a formatter. -/
def formatting (host : Host) (c : Config) (w : World) : List Event :=
  match formatCommand c with
  | none => []
  | some argv => [host.starting argv w.files]

/-- The world after the formatter has run, if there is one. -/
def afterFormatting (host : Host) (c : Config) (w : World) : World :=
  match formatCommand c with
  | none => w
  | some argv =>
    { files := host.filesAfter argv w.files
      trace := w.trace ++ formatterEvents host argv w.files }

/-- The formatter is asked for once. -/
theorem steps_afterFormatting (host : Host) (c : Config) (w : World) :
    (afterFormatting host c w).steps = w.steps ++ formatting host c w := by
  rw [afterFormatting, formatting]
  cases formatCommand c with
  | none => exact (List.append_nil _).symm
  | some argv =>
    dsimp only
    rw [World.steps_append _ w.files, filter_formatterEvents]

/-- The client of a configuration, with its formatter left to run. -/
def unjoined (c : Config) : Client :=
  { directory := c.outDir, pending := formatCommand c }

/-- The client of a configuration once its formatter has run, if there is one. -/
def joined (host : Host) (c : Config) (t : FileTree) : Client :=
  { directory := c.outDir, isFormatted := (formatCommand c).map (formats host · t) }

theorem perform_join_unjoined (host : Host) (c : Config) (w : World) :
    perform (join host (unjoined c)) w =
      (.ok (joined host c w.files).isFormatted, afterFormatting host c w) := by
  rw [join, joined, afterFormatting]
  dsimp only [unjoined]
  cases formatCommand c with
  | none => rfl
  | some argv =>
    dsimp only
    rw [perform_bind, perform_format]
    rfl

/-! ## Rendering -/

/-- A generator's fault may get another wording, but makes the same difference. -/
theorem perform_wrapping (name : Text) (body : Action Unit) (w : World) :
    ∃ outcome : Except Fault Unit, perform (wrapping name body) w = (outcome, (perform body w).2) ∧
      (outcome = .ok ⟨⟩ ↔ (perform body w).1 = .ok ⟨⟩) := by
  rw [wrapping, perform_tryCatch]
  rcases perform body w with ⟨f | _, u⟩
  · exact ⟨_, rfl, by simp⟩
  · exact ⟨_, rfl, by simp⟩

/-- Rendering calls the generator of the configuration, if it can be built, with the schema in the schema
file. -/
theorem perform_render (host : Host) (registry : Registry) (c : Config) {w : World} {content : Bytes}
    {s : Schema} (hread : w.files.read c.schemaPath = .ok content)
    (hs : Schema.ofBytes c.schemaPath.text content = .ok s) :
    (∃ f, perform (render host registry c none) w = (.error f, w)) ∨
      ∃ g before outcome, registry.build c = .ok g ∧ before.surface = w.surface ∧
        perform (render host registry c none) w =
          (outcome, (perform (g.generate host s c.outDir) before).2) ∧
        (outcome = .ok ⟨⟩ ↔ (perform (g.generate host s c.outDir) before).1 = .ok ⟨⟩) := by
  have hload : perform (Schema.load c.schemaPath) w = (.ok s, w) :=
    Schema.perform_load_eq_ok_iff.mpr ⟨⟨content, hread, hs⟩, rfl⟩
  let before : World := { w with trace := w.trace ++ [.noticed (.generating c.outDir.text)] }
  rw [render, perform_bind, hload]
  dsimp only
  cases registry.build c with
  | error f => exact .inl ⟨f, rfl⟩
  | ok g =>
    -- a fault of the generator is told in its own name, and none is lost
    obtain ⟨outcome, hwrapping, hiff⟩ := perform_wrapping g.name (g.generate host s c.outDir) before
    refine .inr ⟨g, before, outcome, rfl, Action.keeps_surface_note (.generating c.outDir.text) w, ?_, hiff⟩
    dsimp only
    rw [pure_bind, perform_bind, Action.perform_note (.generating _) rfl]
    exact hwrapping

/-! ## Stages -/

/-- The client has been formatted, or its formatter is left to run and nothing has happened. -/
theorem perform_formatted (host : Host) (c : Config) (waits : Bool) (q : Pipeline) :
    perform (formatted host (unjoined c) waits) q =
      (.ok (if waits then joined host c q.world.files else unjoined c),
        { q with world := if waits then afterFormatting host c q.world else q.world }) := by
  cases waits with
  | false => rfl
  | true =>
    rw [formatted, if_pos rfl, perform_bind, Stage.perform_act, perform_join_unjoined]
    rfl

/-- What is left to do after the client was rendered. -/
def finish (host : Host) (c : Config) (wait : Option Bool) : Stage Client := do
  let client : Client := { directory := c.outDir, pending := formatCommand c }
  if client.pending.isSome then
    Stage.advance .formatting
  let client ← formatted host client (wait.getD c.waitForFormatter)
  Stage.advance .done
  return client

theorem generate_eq (host : Host) (registry : Registry) (c : Config) (generator : Option Generator)
    (wait : Option Bool) :
    generate host registry c generator wait = Stage.advance .generating >>= fun _ =>
      Stage.recording (Stage.act (render host registry c generator)) >>= fun _ =>
        finish host c wait := rfl

/-- The run of a client that was rendered, in the end. -/
def finished (c : Config) (r : Run) : Run :=
  (if (formatCommand c).isSome then r.moved .formatting else r).moved .done

@[simp] theorem error_finished (c : Config) (r : Run) : (finished c r).error = r.error := by
  rw [finished]
  split <;> rfl

/-- Whether the formatter runs, is left to run or is not there, the run is done in the end. -/
theorem perform_finish {q : Pipeline} (hstate : q.run.state = .generating) (wait : Option Bool) :
    perform (finish host c wait) q =
      (.ok (if wait.getD c.waitForFormatter then joined host c q.world.files else unjoined c),
        { world := if wait.getD c.waitForFormatter then afterFormatting host c q.world else q.world
          run := finished c q.run }) := by
  -- with or without a formatter, the state allows the run to be done
  have hlast (r : Run) (hdone : .done ∈ r.state.next) :
      perform (do
        let client ← formatted host (unjoined c) (wait.getD c.waitForFormatter)
        Stage.advance .done
        return client) { q with run := r } =
      (.ok (if wait.getD c.waitForFormatter then joined host c q.world.files else unjoined c),
        { world := if wait.getD c.waitForFormatter then afterFormatting host c q.world else q.world
          run := r.moved .done }) := by
    rw [perform_bind, perform_formatted]
    dsimp only
    rw [perform_bind, Stage.perform_advance_moved hdone]
    rfl
  rw [finish, finished]
  dsimp only
  split
  · have hformatting : .formatting ∈ q.run.state.next := by
      rw [hstate]
      decide
    rw [perform_bind, Stage.perform_advance_moved hformatting]
    exact hlast _ (show RunState.done ∈ RunState.formatting.next by decide)
  · exact hlast q.run (by rw [hstate]; decide)

/-- **Generating** ends as the generator does; if it succeeds, the run is done. -/
theorem perform_generate (host : Host) (registry : Registry) (c : Config) {q : Pipeline}
    (hgenerating : .generating ∈ q.run.state.next) (wait : Option Bool) :
    perform (generate host registry c none wait) q =
      match perform (render host registry c none) q.world with
      | (.error f, u) =>
        (.error f,
          { world := u, run := (q.run.moved .generating).recorded (.error f : Except Fault Unit) })
      | (.ok _, u) =>
        (.ok (if wait.getD c.waitForFormatter then joined host c u.files else unjoined c),
          { world := if wait.getD c.waitForFormatter then afterFormatting host c u else u
            run := finished c (q.run.moved .generating) }) := by
  rw [generate_eq, Stage.perform_attempt _ _ hgenerating (by decide)]
  rcases perform (render host registry c none) q.world with ⟨f | _, u⟩
  · rfl
  · exact perform_finish rfl wait

end Generation

/-! ## Output -/

namespace CommandLine

theorem keeps_shown (t : Text) : Keeps id (shown t) := by
  rw [shown]
  split
  · exact keeps_pure _
  · exact keeps_throw _

/-- Printing leaves the surface of the world alone. -/
theorem keeps_surface_print (t : Text) : Keeps World.surface (print t) :=
  ((keeps_shown t).part _).bind fun _ => Action.keeps_surface_emit rfl

theorem keeps_surface_printGreen (t : Text) : Keeps World.surface (printGreen t) :=
  keeps_surface_print _

theorem keeps_surface_printTable (t : TextTable) : Keeps World.surface (printTable t) := by
  refine ((keeps_shown t.title).part _).bind fun title => ?_
  refine ((Keeps.mapM keeps_shown t.columns).part _).bind fun columns => ?_
  refine ((Keeps.mapM (fun row => Keeps.mapM keeps_shown row) t.rows).part _).bind fun rows => ?_
  exact Action.keeps_surface_emit rfl

/-! ## Clients -/

/-- **Generating and announcing a client** ends as the generator does if that fails.  If it succeeds, the run
is done; the client is announced after its formatter, or before it if the formatter is not waited for.  Only
a failure to print the line can keep a formatter from being asked for. -/
theorem perform_generateClient (host : Host) (registry : Registry) (c : Config) {q : Pipeline}
    (hgenerating : .generating ∈ q.run.state.next) (wait : Option Bool) (summary : Text) :
    perform (generateClient host registry c wait summary) q =
      match perform (Generation.render host registry c none) q.world with
      | (.error f, u) =>
        (.error f,
          { world := u, run := (q.run.moved .generating).recorded (.error f : Except Fault Unit) })
      | (.ok _, u) =>
        let waits := wait.getD c.waitForFormatter
        let run := Generation.finished c (q.run.moved .generating)
        match perform (printGreen (summary ++ " " ++ Markup.escape c.outDir.text))
            (if waits then Generation.afterFormatting host c u else u) with
        | (.error f, v) => (.error f, { world := v, run })
        | (.ok _, v) =>
          (.ok (Generation.joined host c u.files),
            { world := if waits then v else Generation.afterFormatting host c v, run }) := by
  rw [generateClient, perform_bind, Generation.perform_generate host registry c hgenerating]
  rcases perform (Generation.render host registry c none) q.world with ⟨f | _, u⟩
  · rfl
  -- the line is printed behind the formatter or before it, as the run waits for it or not
  · cases wait.getD c.waitForFormatter with
    | true =>
      simp only [↓reduceIte]
      rw [Stage.perform_act, perform_bind]
      dsimp only [Generation.joined]
      rcases perform (printGreen _) (Generation.afterFormatting host c u) with ⟨f | _, v⟩ <;> rfl
    | false =>
      have hprint := keeps_surface_printGreen (summary ++ " " ++ Markup.escape c.outDir.text) u
      simp only [Bool.false_eq_true, ↓reduceIte]
      rw [Stage.perform_act, perform_bind]
      dsimp only [Generation.unjoined]
      rcases hline : perform (printGreen _) u with ⟨f | _, v⟩
      · rfl
      · rw [hline] at hprint
        have hfiles : v.files = u.files := congrArg Prod.fst hprint
        have hjoin := Generation.perform_join_unjoined host c v
        dsimp only
        rw [perform_bind]
        dsimp only [Generation.unjoined] at hjoin
        rw [hjoin, hfiles]
        rfl

/-- What a run asks for when it generates a client: what the generator does, and the formatter after that. -/
theorem steps_generateClient (host : Host) (registry : Registry) (c : Config) {q : Pipeline}
    (hgenerating : .generating ∈ q.run.state.next) (wait : Option Bool) (summary : Text) :
    match perform (Generation.render host registry c none) q.world with
    | (.error f, u) =>
      ∃ q', perform (generateClient host registry c wait summary) q = (.error f, q') ∧ q'.world = u
    | (.ok _, u) =>
      ∃ outcome q', perform (generateClient host registry c wait summary) q = (outcome, q') ∧
        q'.run.state = .done ∧
        (q'.world.steps = u.steps ++ Generation.formatting host c u ∨
          (∃ f, outcome = .error f) ∧ q'.world.steps = u.steps) := by
  rw [perform_generateClient host registry c hgenerating]
  rcases perform (Generation.render host registry c none) q.world with ⟨f | _, u⟩
  · exact ⟨_, rfl, rfl⟩
  · have hprint := keeps_surface_printGreen (summary ++ " " ++ Markup.escape c.outDir.text)
    -- printing the line starts no process
    dsimp only
    cases wait.getD c.waitForFormatter with
    | true =>
      replace hprint := congrArg Prod.snd (hprint (Generation.afterFormatting host c u))
      rw [if_pos rfl]
      rcases hline : perform (printGreen _) (Generation.afterFormatting host c u) with ⟨f | _, v⟩
      all_goals
        rw [hline] at hprint
        exact ⟨_, _, rfl, rfl, .inl (hprint.trans (Generation.steps_afterFormatting host c u))⟩
    | false =>
      replace hprint := hprint u
      rw [if_neg Bool.false_ne_true]
      rcases hline : perform (printGreen _) u with ⟨f | _, v⟩
      all_goals rw [hline] at hprint
      · exact ⟨_, _, rfl, rfl, .inr ⟨⟨f, rfl⟩, congrArg Prod.snd hprint⟩⟩
      · have hfiles : v.files = u.files := congrArg Prod.fst hprint
        have hsteps : v.steps = u.steps := congrArg Prod.snd hprint
        refine ⟨_, _, rfl, rfl, .inl ?_⟩
        rw [if_neg Bool.false_ne_true, Generation.steps_afterFormatting, Generation.formatting,
          hsteps, hfiles, Generation.formatting]

end CommandLine

end SchemaGraft
