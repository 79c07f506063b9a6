import SchemaGraft.Proofs.CommandLine.Patching
import SchemaGraft.Proofs.Generator.Building

/-!
# Formatters Change No Outcome

Once the generator has returned, the client is announced and the run is done, whatever the formatter does.
Whether the formatter is waited for decides only when the client is announced: after the formatter, or
before it.

## Architecture

- **Announcing**: `CommandLine.perform_generateClient_of_render`, the exact outcome with a formatter that is
  waited for or left to run; `CommandLine.announcement` is what shows.
- **Order**: `World.records` is all that shows but the lines that are printed, and
  `Pipeline.SameButOrder` compares two endings.
- **Main result**: `CommandLine.formatter_changes_no_outcome`.
-/

namespace SchemaGraft

section

variable {host : Host} {registry : Registry} {c : Config} {argv : List Text} {q : Pipeline}

/-! ## Announcing -/

namespace CommandLine

/-- What shows of a client that is announced by a line and of its formatter, which has run before or is
left to run. -/
def announcement (host : Host) (argv : List Text) (t : FileTree) (line : Text) : Bool → List Event
  | true => Generation.formatterEvents host argv t ++ [.printed line]
  | false => .printed line :: Generation.formatterEvents host argv t

/-- **Generating and announcing a client with a formatter**, once the generator has returned. -/
theorem perform_generateClient_of_render (hargv : Generation.formatCommand c = some argv)
    (hgenerating : .generating ∈ q.run.state.next) {u : World}
    (hrender : perform (Generation.render host registry c none) q.world = (.ok ⟨⟩, u))
    {summary line : Text} (hline : Markup.render
      ("[green]" ++ (summary ++ " " ++ Markup.escape c.outDir.text) ++ "[/green]") = .ok line)
    (wait : Option Bool) :
    perform (generateClient host registry c wait summary) q =
      (.ok { directory := c.outDir, isFormatted := some (Generation.formats host argv u.files) },
        { world :=
            { files := host.filesAfter argv u.files
              trace := u.trace ++
                announcement host argv u.files line (wait.getD c.waitForFormatter) }
          run := ((q.run.moved .generating).moved .formatting).moved .done }) := by
  have hprint := perform_print_of_ok hline
  rw [perform_generateClient host registry c hgenerating, hrender]
  dsimp only
  rw [printGreen, hprint]
  cases wait.getD c.waitForFormatter
  -- the line stands before the records of the formatter or behind them
  all_goals
    simp [Generation.joined, Generation.finished, Generation.afterFormatting, hargv, announcement]

end CommandLine

/-! ## Order -/

/-- Is the event a line that is printed? -/
def Event.isPrinted : Event → Bool
  | .printed _ => true
  | _ => false

/-- What shows besides the lines that are printed: what is logged, the tools and what they write, and the
calls of generators. -/
def World.records (w : World) : List Event :=
  w.trace.filter (!·.isPrinted)

/-- Two endings of a run that differ at most in the order of what shows. -/
structure Pipeline.SameButOrder (q q' : Pipeline) : Prop where
  run : q.run = q'.run
  files : q.world.files = q'.world.files
  /-- What is logged, on the levels that notices have, and what tools write is the same, in the same order. -/
  records : q.world.records = q'.world.records
  trace : q.world.trace.Perm q'.world.trace

/-- A formatter prints no line of the command line. -/
theorem Generation.isPrinted_of_mem_formatterEvents {t : FileTree} {event : Event}
    (h : event ∈ formatterEvents host argv t) : event.isPrinted = false := by
  rw [formatterEvents, List.mem_cons] at h
  -- a start, lines of output and a record of failure, but no print
  rcases h with rfl | h
  · rfl
  · cases hlaunch : host.launch argv t with
    | error f =>
      rw [hlaunch, List.mem_singleton] at h
      rw [h]
      rfl
    | ok e =>
      rw [hlaunch, List.mem_append] at h
      rcases h with h | h
      · rcases List.mem_append.mp h with h | h
        all_goals
          obtain ⟨piece, -, rfl⟩ := List.mem_map.mp h
          rfl
      · split at h
        · cases h
        · rw [List.mem_singleton.mp h]
          rfl

theorem Generation.formats_iff {t : FileTree} :
    formats host argv t = true ↔ ∃ e, host.launch argv t = .ok e ∧ e.status = 0 := by
  rw [formats]
  cases host.launch argv t with
  | error f => simp
  | ok e => simp

namespace CommandLine

/-- Waiting for the formatter changes the order of an announcement and nothing else. -/
theorem announcement_perm (t : FileTree) (line : Text) (waits : Bool) :
    (announcement host argv t line waits).Perm (.printed line :: Generation.formatterEvents host argv t) := by
  cases waits with
  | true => exact List.perm_append_singleton _ _
  | false => exact .refl _

theorem filter_announcement (t : FileTree) (line : Text) (waits : Bool) :
    (announcement host argv t line waits).filter (!·.isPrinted) =
      Generation.formatterEvents host argv t := by
  -- leaving the printed line out leaves the records of the formatter
  have hnone : (Generation.formatterEvents host argv t).filter (!·.isPrinted) =
      Generation.formatterEvents host argv t :=
    List.filter_eq_self.mpr fun event hevent => by
      simp [Generation.isPrinted_of_mem_formatterEvents hevent]
  cases waits with
  | true =>
    rw [announcement, List.filter_append, hnone]
    exact List.append_nil _
  | false =>
    rw [announcement, List.filter_cons_of_neg (by simp [Event.isPrinted])]
    exact hnone

end CommandLine

end

/-! ## Main Result -/

namespace CommandLine

/-- How a run ends that has generated and announced a client with a formatter. -/
structure Announced (host : Host) (c : Config) (argv : List Text) (q : Pipeline) (u : World)
    (line : Text) (waits : Bool) (client : Client) (q' : Pipeline) : Prop where
  directory : client.directory = Path.ofText c.sdkDir
  /-- The client counts as formatted exactly when the formatter has started and reported success. -/
  formatted : ∃ isFormatted, client.isFormatted = some isFormatted ∧
    (isFormatted = true ↔ ∃ e, host.launch argv u.files = .ok e ∧ e.status = 0)
  history : q'.run.history = q.run.history ++ [.generating, .formatting, .done]
  error : q'.run.error = none
  /-- After the generator, nothing shows but the line and what shows of the formatter: the line comes
  last if the formatter is waited for, and first otherwise. -/
  trace : q'.world.trace = u.trace ++
    if waits then Generation.formatterEvents host argv u.files ++ [.printed line]
    else .printed line :: Generation.formatterEvents host argv u.files
  /-- The line is printed once. -/
  once : ∀ event ∈ Generation.formatterEvents host argv u.files, event.isPrinted = false

/-- **The formatter cannot change the outcome.**  For every configuration with a formatter, every generator
that returns, every behaviour of the formatter and either way to run it, the client is announced once, its
run is done, and no fault is recorded.  Runs that differ only in whether the formatter is waited for end
alike but for the order of what shows. -/
theorem formatter_changes_no_outcome (host : Host) (registry : Registry) {c : Config} {tool : Text}
    {arguments : List Text} (hformatter : c.formatter = some (tool :: arguments)) {q : Pipeline}
    (hstate : q.run.state = .idle ∨ q.run.state = .patched) (herror : q.run.error = none)
    {u : World} (hrender : perform (Generation.render host registry c none) q.world = (.ok ⟨⟩, u))
    {summary : Text} (hsummary : ∀ ch ∈ summary, ch ≠ .scalar '[' ∧ ch ≠ .scalar '\\') :
    ∃ argv line, Generation.formatCommand c = some argv ∧
      Markup.render ("[green]" ++ (summary ++ " " ++ Markup.escape c.outDir.text) ++ "[/green]") =
        .ok line ∧
      (∀ wait : Option Bool, ∃ client q',
        perform (generateClient host registry c wait summary) q = (.ok client, q') ∧
          Announced host c argv q u line (wait.getD c.waitForFormatter) client q') ∧
      ∀ wait wait' : Option Bool,
        (perform (generateClient host registry c wait summary) q).1 =
            (perform (generateClient host registry c wait' summary) q).1 ∧
          (perform (generateClient host registry c wait summary) q).2.SameButOrder
            (perform (generateClient host registry c wait' summary) q).2 := by
  have hgenerating : .generating ∈ q.run.state.next := by
    rcases hstate with h | h
    all_goals
      rw [h]
      decide
  have hargv : Generation.formatCommand c =
      some (Template.render [("out_dir", c.outDir.text)] (tool :: arguments)) := by
    rw [Generation.formatCommand, Config.formatter?, hformatter]
    rfl
  -- neither the summary nor the escaped directory opens a tag, so the line can be rendered
  have hfront : ∀ ch ∈ summary ++ " ", ch ≠ .scalar '[' ∧ ch ≠ .scalar '\\' :=
    List.forall_mem_append.mpr ⟨hsummary, by decide⟩
  obtain ⟨line, hline⟩ := Markup.exists_render_green_escape hfront c.outDir.text
  have hclient (wait : Option Bool) :=
    perform_generateClient_of_render hargv hgenerating hrender hline wait
  refine ⟨_, line, hargv, hline, fun wait => ⟨_, _, hclient wait, ?_⟩, fun wait wait' => ?_⟩
  · exact
      { directory := rfl
        formatted := ⟨_, rfl, Generation.formats_iff⟩
        history := by simp
        error := herror
        trace := by cases wait.getD c.waitForFormatter <;> rfl
        once := fun _ => Generation.isPrinted_of_mem_formatterEvents }
  · rw [hclient wait, hclient wait']
    refine ⟨rfl, rfl, rfl, ?_, ?_⟩
    · simp [World.records, filter_announcement]
    · exact ((announcement_perm _ _ _).trans (announcement_perm _ _ _).symm).append_left _

end CommandLine

/-! ## A Formatter That Does Not Start -/

namespace Stranded

open CommandLine

/-- A generator that does nothing. -/
def quiet : Registry :=
  [(Generator.commandName, fun _ => .ok { name := "quiet", generate := fun _ _ _ => return })]

theorem render_quiet : perform (Generation.render host quiet config none) world =
    (.ok ⟨⟩, { world with trace := [.noticed (.generating config.outDir.text)] }) := by
  have hload : perform (Schema.load config.schemaPath) world = (.ok schema, world) :=
    Schema.perform_load_eq_ok_iff.mpr ⟨⟨content, read_world, ofBytes_schema _⟩, rfl⟩
  rw [Generation.render, perform_bind, hload]
  rfl

/-- The formatter cannot be started, for an unusual reason.  The run is done all the same, with the line
before or after the note of it. -/
theorem announced_unformatted :
    ∃ line noted, ∀ wait, ∃ client q',
      perform (generateClient host quiet config (some wait) "Client generated in") { world } =
          (.ok client, q') ∧
        client.isFormatted = some false ∧
        q'.run.history = [.idle, .generating, .formatting, .done] ∧
        q'.world.trace = .noticed (.generating config.outDir.text) ::
          if wait then noted ++ [.printed line] else .printed line :: noted := by
  have hsummary : ∀ ch ∈ ("Client generated in" : Text), ch ≠ .scalar '[' ∧ ch ≠ .scalar '\\' := by
    decide
  obtain ⟨argv, line, -, -, hannounced, -⟩ := formatter_changes_no_outcome host quiet
    (c := config) rfl (q := { world }) (.inl rfl) rfl render_quiet hsummary
  refine ⟨line, Generation.formatterEvents host argv world.files, fun wait => ?_⟩
  obtain ⟨client, q', hq', hclient⟩ := hannounced (some wait)
  obtain ⟨isFormatted, hformatted, hiff⟩ := hclient.formatted
  -- the formatter cannot be launched
  refine ⟨client, q', hq', ?_, hclient.history, hclient.trace⟩
  cases isFormatted with
  | false => exact hformatted
  | true =>
    obtain ⟨e, hlaunch, -⟩ := hiff.mp rfl
    cases hlaunch

end Stranded

end SchemaGraft
