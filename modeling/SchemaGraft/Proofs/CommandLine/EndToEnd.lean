import SchemaGraft.Proofs.Generator.Generating
import SchemaGraft.Proofs.Generator.Handover
import SchemaGraft.Proofs.Patch.Atomicity

/-!
# From End to End

A run of all stages asks for the extractor, the generator and the formatter in this order, each at most
once and none after a failure.  The generator is never called with a schema that was not patched.

## Architecture

- **Patched files**: `PatchTable.Leaves.reload`, what a patched file is loaded as.
- **Courses**: `Generated` is all that holds when the generator is called; `Course` are the ways that a run
  can take.
- **Main result**: `CommandLine.end_to_end`.
-/

namespace SchemaGraft

/-! ## Patched Files -/

/-- Every instruction that a rule of the table matches has an argument of the name that the rule
appends. -/
def PatchTable.Fulfilled (t : PatchTable) (s : Schema) : Prop :=
  ∀ ix ∈ s.instructions, ∀ rule ∈ t.rules, rule.claims ix.name = true →
    ∃ a ∈ ix.arguments, a.name = rule.append.name

namespace PatchTable

variable {t : PatchTable} {strict : Bool} {p : Path}

/-- Without a conflict, look-up finds every rule that matches. -/
theorem rule?_eq_some (ht : t.conflict? = none) {rule : PatchRule} {name : Text}
    (hrule : rule ∈ t.rules) (hclaims : rule.claims name = true) : t.rule? name = some rule := by
  have hlength := t.claiming_length_le ht name
  have hmem : rule ∈ t.rules.filter (·.claims name) := List.mem_filter.mpr ⟨hrule, hclaims⟩
  rw [rule?_eq_head?]
  -- no two rules claim one name
  cases h : t.rules.filter (·.claims name) with
  | nil =>
    rw [h] at hmem
    cases hmem
  | cons r rest =>
    rw [h] at hmem hlength
    cases rest with
    | nil => rw [List.mem_singleton.mp hmem, List.head?_cons]
    | cons r' rest => simp at hlength

theorem fulfilled_of_lacks (ht : t.conflict? = none) {s : Schema}
    (h : ∀ o ∈ s.outline, t.lacks o = false) : t.Fulfilled s := by
  intro ix hix rule hrule hclaims
  have hlacks := h _ (List.mem_map_of_mem hix)
  rw [lacks, Instruction.outline, rule?_eq_some ht hrule hclaims] at hlacks
  simpa using hlacks

/-- **A patched file is loaded again** as a schema with the canonical text that it holds, in which every
matched instruction has its argument. -/
theorem Leaves.reload (ht : t.WellFormed) {before after : FileTree} {s : Schema} {r : Report}
    (h : t.Leaves strict p before (.ok (s, r)) after) :
    ∃ content text s', after.read p = .ok content ∧ Schema.ofBytes p.text content = .ok s' ∧
      s'.canonical = .ok text ∧ Utf8.encode text = .ok content ∧ t.Fulfilled s' := by
  cases h with
  | @patched old content loaded _ _ text _ hread hload hpatch hcanonical hencode hrewritten =>
    obtain ⟨-, -, -, rfl⟩ := (patch_eq_ok_iff ht.unambiguous).mp hpatch
    have hwellFormed := ht.patchedSchema (Schema.wellFormed_of_ofBytes hload)
    obtain ⟨s', hs', hcanonical', hordered⟩ :=
      Schema.ofBytes_of_bytes hwellFormed hcanonical hencode p.text
    refine ⟨content, text, s', hrewritten.read hread, hs', hcanonical', hencode, ?_⟩
    apply fulfilled_of_lacks ht.unambiguous
    -- the names of instructions and arguments come back
    rw [(Schema.outline_eq_of_ordered hordered).1]
    exact lacks_of_mem_outline

/-- Patching a file takes no step outside. -/
theorem keeps_steps_updateFile (t : PatchTable) (strict : Bool) (p : Path) :
    Keeps World.steps (t.updateFile strict p) := by
  refine ((Schema.keeps_load p).part _).bind fun s => ?_
  refine Keeps.bind ?_ fun (patched, report) => ?_
  · intro w
    rw [perform_patching, World.steps_append _ w.files]
    simp [Event.isStep]
  · refine Keeps.bind (fun w => ?_) fun _ => keeps_pure _
    exact congrArg (List.filter Event.isStep) (Schema.keeps_trace_save patched p w)

/-- Patching a file as a part of a run takes no step outside, and leaves the run patched if it succeeds. -/
theorem perform_patchFile_steps (t : PatchTable) (strict : Bool) (p : Path) {q : Pipeline}
    {run : Run} (h : q.run.advance .patching = .ok run) :
    (perform (t.patchFile strict p) q).2.world.steps = q.world.steps ∧
      ∀ done, (perform (t.patchFile strict p) q).1 = .ok done →
        (perform (t.patchFile strict p) q).2.run.state = .patched := by
  have hsteps := keeps_steps_updateFile t strict p q.world
  rw [perform_patchFile h]
  -- updating a file makes notes only, and those are no steps
  rcases hupdate : perform (t.updateFile strict p) q.world with ⟨f | ⟨s, r, changed⟩, w⟩
  all_goals rw [hupdate] at hsteps
  · exact ⟨hsteps, fun _ hdone => by cases hdone⟩
  · refine ⟨?_, fun _ _ => rfl⟩
    dsimp only
    rw [World.steps_append _ w.files, ← hsteps]
    exact List.append_nil _

end PatchTable

/-- An extraction in a fresh run asks for the extractor.  It succeeds only if the extractor reports success
and the file that it has left can be patched. -/
theorem Extraction.perform_run_cases (host : Host) (c : Config) (t : PatchTable) (w : World) :
    (∃ f q, perform (Extraction.run host c t) { world := w } = (.error f, q) ∧
        q.world.steps = w.steps ++ [host.starting (command c) w.files]) ∨
      ∃ e p done q, host.launch (command c) w.files = .ok e ∧ e.status = 0 ∧
        p.world.files = e.files ∧
        perform (t.patchFile c.strictCoverage c.schemaPath) p = (.ok done, q) ∧
        perform (Extraction.run host c t) { world := w } = (.ok done, q) ∧
        q.run.state = .patched ∧
        q.world.steps = w.steps ++ [host.starting (command c) w.files] := by
  have hadvance : Run.start.advance .extracting = .ok _ := rfl
  have hsteps := steps_perform_extract host c w
  have hfiles := perform_extract host c w
  rw [perform_run hadvance]
  -- either the extractor fails, or it leaves its files to the patch, which fails or succeeds
  rcases hextract : perform (extract host c) w with ⟨f | _, v⟩
  all_goals rw [hextract] at hsteps hfiles
  · exact .inl ⟨f, _, rfl, hsteps⟩
  · dsimp only
    let run : Run := { past := [.idle], state := .extracting }
    let p : Pipeline :=
      { world := { v with trace := v.trace ++ [.noticed (.mutating c.schemaPath.text)] }, run }
    have hp : p.world.steps = w.steps ++ [host.starting (command c) w.files] :=
      (World.steps_append _ v.files ..).trans ((List.append_nil _).trans hsteps)
    obtain ⟨hsteps', hstate⟩ :=
      PatchTable.perform_patchFile_steps t c.strictCoverage c.schemaPath (q := p) rfl
    cases hlaunch : host.launch (command c) w.files with
    | error f =>
      rw [hlaunch] at hfiles
      cases hfiles
    | ok e =>
      rw [hlaunch] at hfiles
      dsimp only at hfiles
      have hstatus : e.status = 0 := by
        by_contra hstatus
        rw [if_neg hstatus] at hfiles
        cases hfiles
      have hv : v.files = e.files := by
        have hv := congrArg (fun x => x.2.files) hfiles
        exact hv
      rcases hpatch : perform (t.patchFile c.strictCoverage c.schemaPath) p with ⟨f | done, q⟩
      all_goals rw [hpatch] at hsteps' hstate
      · exact .inl ⟨f, q, hpatch, hsteps'.trans hp⟩
      · exact .inr ⟨e, p, done, q, rfl, hstatus, hv, hpatch, hpatch, hstate done rfl,
          hsteps'.trans hp⟩

/-! ## Courses -/

/-- The generator was called, with this outcome and effect, and all that has to come before has: the
extractor has reported success, the file that it left was patched, and the schema that the generator was
given has the text that the schema file held. -/
inductive Generated (host : Host) (registry : Registry) (c : Config) (t : PatchTable) (w : World) :
    Except Fault Unit → World → Prop where
  | intro {e : Execution} {p p' : Pipeline} {patched s : Schema} {r : Report} {text : Text}
      {content : Bytes} {g : Generator} {before after : World} {outcome : Except Fault Unit}
      (extracted : host.launch (Extraction.command c) w.files = .ok e) (success : e.status = 0)
      (onto : p.world.files = e.files)
      (patch : perform (t.patchFile c.strictCoverage c.schemaPath) p = (.ok (patched, r), p'))
      (files : before.files = p'.world.files)
      (steps : before.steps = w.steps ++ [host.starting (Extraction.command c) w.files])
      (source : before.files.read c.schemaPath = .ok content)
      (canonical : s.canonical = .ok text) (encoded : Utf8.encode text = .ok content)
      (fulfilled : t.Fulfilled s)
      (built : registry.build c = .ok g)
      (generated : perform (g.generate host s c.outDir) before = (outcome, after))
      (handover : registry = .builtin → Generator.Handover host c text content before outcome after) :
    Generated host registry c t w outcome after

/-- The courses that a run of all stages can take in a world. -/
inductive Course (host : Host) (registry : Registry) (c : Config) (t : PatchTable) (w : World) :
    Except Fault Unit → Pipeline → Prop where
  /-- It fails before the generator is called, and has asked for the extractor only. -/
  | stopped {f : Fault} {q : Pipeline}
      (steps : q.world.steps = w.steps ++ [host.starting (Extraction.command c) w.files]) :
    Course host registry c t w (.error f) q
  /-- The generator fails, and nothing is asked for after that. -/
  | failed {f f' : Fault} {after : World} {q : Pipeline}
      (generated : Generated host registry c t w (.error f') after)
      (steps : q.world.steps = after.steps) : Course host registry c t w (.error f) q
  /-- The generator succeeds, but saying so fails before the formatter is asked for. -/
  | unformatted {f : Fault} {after : World} {q : Pipeline}
      (generated : Generated host registry c t w (.ok ⟨⟩) after)
      (steps : q.world.steps = after.steps) (done : q.run.state = .done) :
    Course host registry c t w (.error f) q
  /-- The generator succeeds, and the formatter is asked for, if there is one. -/
  | finished {outcome : Except Fault Unit} {after : World} {q : Pipeline}
      (generated : Generated host registry c t w (.ok ⟨⟩) after)
      (steps : q.world.steps = after.steps ++ Generation.formatting host c after)
      (done : q.run.state = .done) : Course host registry c t w outcome q

namespace CommandLine

variable {host : Host} {registry : Registry} {c : Config} {t : PatchTable}

/-- From a file that was patched onwards, a run takes one of the courses. -/
theorem course_generateClient {w : World} {q : Pipeline} {s : Schema} {content : Bytes}
    (hstate : q.run.state = .patched)
    (hsteps : q.world.steps = w.steps ++ [host.starting (Extraction.command c) w.files])
    (hread : q.world.files.read c.schemaPath = .ok content)
    (hs : Schema.ofBytes c.schemaPath.text content = .ok s)
    (hgenerated : ∀ g before, registry.build c = .ok g → before.surface = q.world.surface →
      Generated host registry c t w (perform (g.generate host s c.outDir) before).1
        (perform (g.generate host s c.outDir) before).2) (summary : Text) :
    Course host registry c t w (perform (discard (generateClient host registry c none summary)) q).1
      (perform (discard (generateClient host registry c none summary)) q).2 := by
  rw [perform_discard]
  have hclient := steps_generateClient host registry c (by rw [hstate]; decide) none summary
  -- the generator cannot be built, or it is run on the schema and fails or succeeds
  rcases Generation.perform_render host registry c hread hs with
    ⟨f, hrender⟩ | ⟨g, before, outcome, hbuild, hbefore, hrender, hiff⟩
  · rw [hrender] at hclient
    obtain ⟨q', hq', hworld⟩ := hclient
    rw [hq']
    exact .stopped ((congrArg World.steps hworld).trans hsteps)
  · rw [hrender] at hclient
    replace hgenerated := hgenerated g before hbuild hbefore
    cases outcome with
    | error f =>
      obtain ⟨q', hq', hworld⟩ := hclient
      rw [hq']
      cases hbody : (perform (g.generate host s c.outDir) before).1 with
      | ok _ => exact absurd (hiff.mpr hbody) (by simp)
      | error f' =>
        rw [hbody] at hgenerated
        exact .failed hgenerated (congrArg World.steps hworld)
    | ok _ =>
      rw [hiff.mp rfl] at hgenerated
      obtain ⟨outcome, q', hq', hdone, hformatted⟩ := hclient
      rw [hq']
      rcases hformatted with hformatted | ⟨⟨f, rfl⟩, hformatted⟩
      · exact .finished hgenerated hformatted hdone
      · exact .unformatted hgenerated hformatted hdone

theorem course_endToEnd (ht : t.WellFormed) (host : Host) (registry : Registry) (c : Config)
    (w : World) :
    Course host registry c t w (perform (endToEnd host registry c t) { world := w }).1
      (perform (endToEnd host registry c t) { world := w }).2 := by
  rw [endToEnd, perform_bind]
  rcases Extraction.perform_run_cases host c t w with
    ⟨f, q, hrun, hsteps⟩ | ⟨e, p, ⟨patched, r⟩, q, hlaunch, hstatus, honto, hpatch, hrun, hstate, hsteps⟩
  · rw [hrun]
    exact .stopped hsteps
  · rw [hrun]
    dsimp only
    have hprint := keeps_surface_printTable (reportTable r) q.world
    rw [perform_bind, Stage.perform_act]
    rcases hline : perform (printTable (reportTable r)) q.world with ⟨f | _, v⟩
    all_goals rw [hline] at hprint
    · exact .stopped ((congrArg Prod.snd hprint).trans hsteps)
    · have hfiles : v.files = q.world.files := congrArg Prod.fst hprint
      have hsteps' := (congrArg Prod.snd hprint).trans hsteps
      -- the patched file is loaded again, and its schema is what a generator is given
      have hleaves := PatchTable.leaves_of_patchFile t c.strictCoverage c.schemaPath p
      rw [hpatch] at hleaves
      obtain ⟨content, text, s, hread, hs, hcanonical, hencode, hfulfilled⟩ := hleaves.reload ht
      rw [← hfiles] at hread
      refine course_generateClient (q := { q with world := v }) hstate hsteps' hread hs
        (fun g before hbuild hbefore => ?_) _
      have hfiles' : before.files = v.files := congrArg Prod.fst hbefore
      rw [← hfiles'] at hread
      exact .intro hlaunch hstatus honto hpatch (hfiles'.trans hfiles)
        ((congrArg Prod.snd hbefore).trans hsteps') hread hcanonical hencode hfulfilled hbuild rfl
        fun hbuiltin => Registry.handover_of_builtin (hbuiltin ▸ hbuild) hcanonical hencode hread

/-! ## Exit Status -/

/-- A run of all stages that succeeds is done. -/
theorem done_of_endToEnd {w : World} {q : Pipeline}
    (h : perform (endToEnd host registry c t) { world := w } = (.ok ⟨⟩, q)) :
    q.run.state = .done := by
  obtain ⟨⟨s, r⟩, q₁, hrun, h⟩ := perform_bind_eq_ok_iff.mp h
  obtain ⟨⟨⟩, q₂, hprint, h⟩ := perform_bind_eq_ok_iff.mp h
  obtain ⟨v, -, rfl⟩ := Stage.perform_act_eq_ok_iff.mp hprint
  -- both halves have succeeded: the first leaves the run patched, the second done
  have hstate : q₁.run.state = .patched := by
    rcases Extraction.perform_run_cases host c t w with
      ⟨f, q, hfailed, -⟩ | ⟨e, p, done, q, -, -, -, -, hrun', hstate, -⟩
    · cases hrun.symm.trans hfailed
    · cases hrun.symm.trans hrun'
      exact hstate
  rw [perform_discard] at h
  have hclient := steps_generateClient host registry c (q := { q₁ with world := v })
    (by dsimp only; rw [hstate]; decide) none "Done: client generated in"
  rcases hrender : perform (Generation.render host registry c none) v with ⟨f | _, u⟩
  all_goals rw [hrender] at hclient
  · obtain ⟨q', hq', -⟩ := hclient
    rw [hq'] at h
    cases h
  · obtain ⟨outcome, q', hq', hdone, -⟩ := hclient
    rw [hq'] at h
    cases (Prod.mk.inj h).2
    exact hdone

theorem perform_inFreshRun {α : Type} (s : Stage α) (w : World) :
    perform (inFreshRun s) w =
      ((perform s { world := w }).1, (perform s { world := w }).2.world) := by
  rw [inFreshRun, perform_bind, perform_get]
  dsimp only
  rw [← perform]
  rcases perform s { world := w } with ⟨f | a, q⟩
  · rfl
  · rfl

theorem exists_endToEnd_of_runAll {config : Option Text} {n : Nat} {w w' : World}
    (h : perform (runAll host registry config) w = (.ok n, w')) :
    ∃ c t v q, perform (loadBoth config) w = (.ok (c, t), v) ∧
      perform (endToEnd host registry c t) { world := v } = (.ok ⟨⟩, q) ∧ q.world = w' := by
  obtain ⟨⟨c, t⟩, v, hload, h⟩ := perform_bind_eq_ok_iff.mp h
  obtain ⟨⟨⟩, u, hrun, h⟩ := perform_bind_eq_ok_iff.mp h
  rw [perform_inFreshRun] at hrun
  cases h
  rcases hend : perform (endToEnd host registry c t) { world := v } with ⟨f | _, q⟩
  · rw [hend] at hrun
    cases hrun
  · rw [hend] at hrun
    cases hrun
    exact ⟨c, t, v, q, hload, hend, rfl⟩

/-- A command whose faults are reported has the exit status zero only if it gives it. -/
theorem of_reporting_eq_zero {body : Action Nat} {w w' : World}
    (h : perform (reporting body) w = (.ok 0, w')) : perform body w = (.ok 0, w') := by
  rw [reporting, perform_tryCatch] at h
  rcases hbody : perform body w with ⟨f | n, v⟩
  -- a fault is reported with another exit code
  · rw [hbody] at h
    dsimp only at h
    split at h
    · obtain ⟨⟨⟩, u, -, h⟩ := perform_bind_eq_ok_iff.mp h
      cases h
    · cases h
  · rw [hbody] at h
    exact h

/-! ## Main Result -/

/-- **From end to end.**  With a well-formed table, every run of all stages takes one of the courses,
whatever the configuration, the files, the tools and the generators are.  The command exits with zero only
if its run has succeeded and is done. -/
theorem end_to_end (ht : t.WellFormed) (host : Host) (registry : Registry) (w : World) :
    (∀ c : Config, Course host registry c t w
      (perform (endToEnd host registry c t) { world := w }).1
      (perform (endToEnd host registry c t) { world := w }).2) ∧
    ∀ (config : Option Text) (w' : World),
      perform (reporting (runAll host registry config)) w = (.ok 0, w') →
      ∃ c t v q, perform (loadBoth config) w = (.ok (c, t), v) ∧
        perform (endToEnd host registry c t) { world := v } = (.ok ⟨⟩, q) ∧ q.world = w' ∧
        q.run.state = .done := by
  refine ⟨fun c => course_endToEnd ht host registry c w, fun config w' h => ?_⟩
  obtain ⟨c, t, v, q, hload, hend, hworld⟩ := exists_endToEnd_of_runAll (of_reporting_eq_zero h)
  exact ⟨c, t, v, q, hload, hend, hworld, done_of_endToEnd hend⟩

end CommandLine

/-! ## A Run That Is Finished -/

namespace Sample

open CommandLine

/-- A schema file with one instruction, and a directory for temporary files. -/
def world : World where
  files := { home := [], entries := [(["tmp"], .directory), (["p.json"], .file (Utf8.encodeChars
    "\x7b\"instructions\":[\x7b\"name\":\"A\"\x7d],\"types\":[]\x7d".toList))] }

/-- Tools that report success and change nothing. -/
def host : Host where
  launch _ t := .ok { files := t }
  temporary := ["tmp"]

/-- A table that gives the instruction an argument. -/
def table : PatchTable where
  version := "1"
  rules := [{ names := ["A"], append := { name := "p", type := .named "u8" } }]

/-- A configuration with a command for each stage. -/
def config : Config where
  programName := "p"
  idlDir := "."
  sdkDir := "s"
  extractor := "e"
  extractorArgs := []
  generatorCommand := ["g", "\x7bschema\x7d"]
  formatter := some ["f"]

theorem wellFormed_table : table.WellFormed where
  unambiguous := by decide
  append := by
    intro r hr
    rw [List.mem_singleton.mp hr]
    exact Argument.wellFormed_of_extra_nil rfl

set_option maxRecDepth 10000 in
theorem endToEnd_sample :
    (fun p : Except Fault Unit × Pipeline => (p.1, p.2.world.steps.length))
      (perform (endToEnd host .builtin config table) { world }) = (.ok ⟨⟩, 3) := by
  cbv

/-- The run succeeds, and asks for the extractor, the generator and the formatter. -/
theorem end_to_end_sample : table.WellFormed ∧ ∃ q,
    perform (endToEnd host .builtin config table) { world } = (.ok ⟨⟩, q) ∧
      q.world.steps.length = 3 ∧ Course host .builtin config table world (.ok ⟨⟩) q := by
  have hrun := endToEnd_sample
  have hcourse := (end_to_end wellFormed_table host .builtin world).1 config
  refine ⟨wellFormed_table, ?_⟩
  -- the run has been computed once, and is not to be unfolded again
  generalize perform (endToEnd host .builtin config table) { world } = p at hrun hcourse ⊢
  obtain ⟨outcome, q⟩ := p
  obtain ⟨houtcome, hsteps⟩ : outcome = .ok ⟨⟩ ∧ q.world.steps.length = 3 := Prod.mk.inj hrun
  subst houtcome
  exact ⟨q, rfl, hsteps, hcourse⟩

end Sample

end SchemaGraft
