import SchemaGraft.Proofs.Run.Settled

/-!
# Generators That Cannot Be Built

Generating from a schema file that can be loaded settles its run, whatever the generator and the formatter
do.  Only a generator that cannot be built may prevent that.

## Architecture

- **Rendering**: every fault of a generator is turned into a foreseen one, so that
  `Generation.render_breaks_iff` speaks of building the generator alone.
- **Generating**: `Generation.Breaks`, with `Generation.breaks_generate_iff`.
- **Built-in generators**: `Generation.breaks_builtin_iff`, by `Generator.command_eq_error_iff`.
- **Main result**: `Generation.settles_generate`.
-/

namespace SchemaGraft

/-! ## Commands -/

/-- A command generator is not built without a command. -/
theorem Generator.command_eq_error_iff {argv : List Text} {f : Fault} :
    command argv = .error f ↔ argv = [] ∧ f = .emptyCommand := by
  cases argv with
  | nil => simp [command, eq_comm]
  | cons tool arguments => simp [command]

namespace Generation

variable {host : Host} {registry : Registry} {c : Config} {generator : Option Generator}

/-! ## Rendering -/

/-- No fault of a generator escapes as it is unless it is foreseen. -/
theorem isForeseen_of_perform_wrapping {name : Text} {body : Action Unit} {w w' : World} {f : Fault}
    (h : perform (wrapping name body) w = (.error f, w')) : f.isForeseen = true := by
  rw [wrapping, perform_tryCatch] at h
  rcases hbody : perform body w with ⟨g | _, u⟩
  · rw [hbody] at h
    cases h
    split
    · next hforeseen => exact hforeseen
    · rfl
  · rw [hbody] at h
    cases h

/-- Rendering lets through the faults of building the generator and no others. -/
theorem render_breaks_iff (host : Host) (registry : Registry) (generator : Option Generator)
    {w w' : World} {s : Schema} (hload : perform (Schema.load c.schemaPath) w = (.ok s, w'))
    {f : Fault} :
    f.isForeseen = false ∧ (perform (render host registry c generator) w).1 = .error f ↔
      generator = none ∧ registry.build c = .error f ∧ f.isForeseen = false := by
  -- whatever a generator raises is told in its name, as a fault that is foreseen
  have hwrapped (g : Generator) (w : World) (hunforeseen : f.isForeseen = false) :
      (perform (wrapping g.name (g.generate host s c.outDir)) w).1 ≠ .error f := by
    intro h
    rw [isForeseen_of_perform_wrapping (Prod.ext h rfl)] at hunforeseen
    cases hunforeseen
  rw [render, perform_bind, hload]
  dsimp only
  cases generator with
  | some g =>
    dsimp only
    rw [pure_bind, perform_bind, Action.perform_note (.generating _) rfl]
    constructor
    · rintro ⟨hunforeseen, h⟩
      exact absurd h (hwrapped g _ hunforeseen)
    · rintro ⟨hnone, -⟩
      cases hnone
  | none =>
    dsimp only
    cases registry.build c with
    | error g =>
      constructor
      · rintro ⟨hunforeseen, h⟩
        cases h
        exact ⟨rfl, rfl, hunforeseen⟩
      · rintro ⟨-, h, hunforeseen⟩
        cases h
        exact ⟨hunforeseen, rfl⟩
    | ok g =>
      dsimp only
      rw [pure_bind, perform_bind, Action.perform_note (.generating _) rfl]
      constructor
      · rintro ⟨hunforeseen, h⟩
        exact absurd h (hwrapped g _ hunforeseen)
      · rintro ⟨-, h, -⟩
        cases h

/-! ## Generating -/

/-- The fault with which a generation ends although it is not foreseen, and the state in which it leaves
the run: the generator of the configuration cannot be built. -/
def Breaks (registry : Registry) (c : Config) (generator : Option Generator) (f : Fault)
    (s : RunState) : Prop :=
  generator = none ∧ registry.build c = .error f ∧ f.isForeseen = false ∧ s = .generating

/-- **Generating lets through these faults and no others**, while the run is generating. -/
theorem breaks_generate_iff {q : Pipeline} (h : .generating ∈ q.run.state.next) {w : World}
    {s : Schema} (hload : perform (Schema.load c.schemaPath) q.world = (.ok s, w))
    {wait : Option Bool} {f : Fault} {state : RunState} :
    Breaks registry c generator f state ↔
      f.isForeseen = false ∧ (perform (generate host registry c generator wait) q).1 = .error f ∧
        (perform (generate host registry c generator wait) q).2.run.state = state := by
  have hrender := render_breaks_iff host registry generator hload (f := f)
  rw [Breaks, generate_eq, Stage.perform_attempt _ _ h (by decide)]
  rcases hperform : perform (render host registry c generator) q.world with ⟨g | _, u⟩
  all_goals
    rw [hperform] at hrender
    dsimp only at hrender ⊢
  · constructor
    · rintro ⟨hnone, hbuild, hunforeseen, rfl⟩
      obtain ⟨-, hg⟩ := hrender.mpr ⟨hnone, hbuild, hunforeseen⟩
      cases hg
      rw [Run.recorded, hunforeseen]
      exact ⟨rfl, rfl, rfl⟩
    · rintro ⟨hunforeseen, hg, hstate⟩
      cases hg
      obtain ⟨hnone, hbuild, -⟩ := hrender.mp ⟨hunforeseen, rfl⟩
      rw [Run.recorded, hunforeseen] at hstate
      exact ⟨hnone, hbuild, hunforeseen, hstate.symm⟩
  -- behind the rendering nothing can raise an unforeseen fault
  · rw [perform_finish rfl]
    constructor
    · rintro ⟨hnone, hbuild, hunforeseen, -⟩
      obtain ⟨-, hg⟩ := hrender.mpr ⟨hnone, hbuild, hunforeseen⟩
      cases hg
    · rintro ⟨-, hg, -⟩
      cases hg

/-! ## Built-in Generators -/

/-- Of the built-in generators, only the one that runs a command breaks: when it is given none. -/
theorem breaks_builtin_iff {f : Fault} {s : RunState} :
    Breaks Registry.builtin c generator f s ↔
      generator = none ∧ c.generator = Generator.commandName ∧ c.generatorCommand = [] ∧
        f = .emptyCommand ∧ s = .generating := by
  rw [Breaks, Registry.build, Registry.builtin, Json.lookup_cons, Json.lookup_cons]
  by_cases hcommand : Generator.commandName = c.generator
  · simp only [hcommand, if_true, true_and, Generator.command_eq_error_iff]
    constructor
    · rintro ⟨hnone, ⟨hargv, hf⟩, -, hs⟩
      exact ⟨hnone, hargv, hf, hs⟩
    · rintro ⟨hnone, hargv, rfl, hs⟩
      exact ⟨hnone, ⟨hargv, rfl⟩, rfl, hs⟩
  · dsimp only
    rw [if_neg hcommand]
    constructor
    · rintro ⟨-, hbuild, hunforeseen, -⟩
      -- the library is always built, and an unknown name is foreseen
      split at hbuild
      · next make hmake =>
        split at hmake
        · cases hmake
          cases hbuild
        · cases hmake
      · cases hbuild
        cases hunforeseen
    · rintro ⟨-, hname, -⟩
      exact absurd hname.symm hcommand

end Generation

/-! ## Main Result -/

/-- **Generating settles an idle or patched run** for every schema file that can be loaded, whatever the
generator and the formatter do, unless the generator cannot be built.  With the built-in generators that
is the case exactly for an empty command. -/
theorem Generation.settles_generate (host : Host) (registry : Registry) (c : Config)
    (generator : Option Generator) (wait : Option Bool) {q : Pipeline}
    (hstate : q.run.state = .idle ∨ q.run.state = .patched) {s : Schema} {w : World}
    (hload : perform (Schema.load c.schemaPath) q.world = (.ok s, w)) :
    Stage.SettlesUnless (Generation.Breaks registry c generator) .done
        (Generation.generate host registry c generator wait) q ∧
      ∀ f s, Generation.Breaks Registry.builtin c generator f s ↔
        generator = none ∧ c.generator = Generator.commandName ∧ c.generatorCommand = [] ∧
          f = .emptyCommand ∧ s = .generating := by
  have hgenerating : .generating ∈ q.run.state.next := by
    rcases hstate with h | h
    all_goals
      rw [h]
      decide
  refine ⟨?_, fun f s => Generation.breaks_builtin_iff⟩
  refine Stage.settlesUnless_of_follows
    (Generation.generate_follows host registry c generator wait) hgenerating ?_
    fun f s => Generation.breaks_generate_iff hgenerating hload
  -- with a formatter or without, the course ends in `done`
  rw [Generation.finishCourse_eq]
  split <;> rfl

namespace Stranded

theorem check_config :
    Config.check (.object [(.text "generator_command", .list [])]) = .ok config := rfl

/-- A configuration passes its check and leaves a fresh run generating. -/
theorem left_generating :
    Config.check (.object [(.text "generator_command", .list [])]) = .ok config ∧
      perform (Schema.load config.schemaPath) world = (.ok schema, world) ∧
      (perform (Generation.generate host .builtin config none none) { world }).1 =
        .error .emptyCommand ∧
      (perform (Generation.generate host .builtin config none none) { world }).2.run.state =
        .generating := by
  have hload : perform (Schema.load config.schemaPath) world = (.ok schema, world) :=
    Schema.perform_load_eq_ok_iff.mpr ⟨⟨content, read_world, ofBytes_schema _⟩, rfl⟩
  obtain ⟨hsettles, hbreaks⟩ := Generation.settles_generate host .builtin config none none
    (q := { world }) (.inl rfl) hload
  obtain ⟨-, hfault, hgenerating, -⟩ :=
    hsettles.broken _ _ ((hbreaks _ _).mpr ⟨rfl, rfl, rfl, rfl, rfl⟩)
  exact ⟨check_config, hload, hfault, hgenerating⟩

end Stranded

end SchemaGraft
