import SchemaGraft.Proofs.Generator.Generating
import SchemaGraft.Proofs.Patch.Atomicity

/-!
# The Course of a Run

Each operation on a run takes it through a fixed course of states.  How far the run has come, what it has
recorded and what the operation returns always agree.

## Architecture

- **Steps**: what a recorded fault does to a run.
- **Endings**: `Run.Ends` relates the outcome of an operation to the run that it leaves;
  `Run.Ends.of_moved` puts one more state in front of the course.
- **Stages**: `Stage.ends_attempt` for a step with an action that may fail; `Stage.Follows` is the law for a
  whole operation.
- **Operations**: `PatchTable.patchFile_follows`, `Extraction.run_follows` and
  `Generation.generate_follows`.
- **Main result**: `Stage.operations_follow`.
-/

namespace SchemaGraft

/-! ## Steps -/

namespace Run

variable {r : Run}

theorem advance_of_notMem {target : RunState} (h : target ∉ r.state.next) :
    r.advance target = .error (.illegalStep r.state target) := by
  rw [advance, if_neg]
  rwa [List.contains_iff_mem]

/-- A run that fails has recorded the fault and taken one step. -/
theorem fail_eq {f : Fault} (h : .failed ∈ r.state.next) :
    (r.fail f).1 = { r with error := some f }.moved .failed := by
  have hadvance : Run.advance { r with error := some f } .failed = .ok _ :=
    advance_eq_ok_iff.mpr ⟨h, rfl⟩
  rw [fail, hadvance]
  rfl

/-! ## Endings -/

/-- The states are a part of the course: the run has entered it, but has not come to its end. -/
structure Partway (course taken : List RunState) : Prop where
  entered : taken ≠ []
  part : taken <+: course
  proper : taken ≠ course

/-- How an operation that takes a run through `course` leaves it, for each outcome of the operation. -/
inductive Ends {α : Type} (course : List RunState) (before : Run) : Except Fault α → Run → Prop where
  /-- The operation succeeds, and the run has gone through the whole course. -/
  | finished {x : α} {after : Run} (error : after.error = before.error)
      (history : after.history = before.history ++ course) : Ends course before (.ok x) after
  /-- A foreseen fault ends the operation.  It is recorded, and the run has failed, once. -/
  | failed {f : Fault} {taken : List RunState} {after : Run} (foreseen : f.isForeseen = true)
      (partway : Partway course taken) (state : after.state = .failed) (error : after.error = some f)
      (history : after.history = before.history ++ taken ++ [.failed]) :
    Ends course before (.error f) after
  /-- Another fault ends the operation.  It is not recorded, and the run stays where it is. -/
  | abandoned {f : Fault} {taken : List RunState} {after : Run} (unforeseen : f.isForeseen = false)
      (partway : Partway course taken) (error : after.error = before.error)
      (history : after.history = before.history ++ taken) : Ends course before (.error f) after

variable {α : Type} {first : RunState} {rest taken : List RunState}

theorem Partway.cons (h : Partway rest taken) (first : RunState) :
    Partway (first :: rest) (first :: taken) where
  entered := List.cons_ne_nil first taken
  part := List.cons_prefix_cons.mpr ⟨rfl, h.part⟩
  proper := fun hsame => h.proper (List.cons.inj hsame).2

/-- The first state of a course that goes on is a part of it. -/
theorem partway_singleton (hrest : rest ≠ []) : Partway (first :: rest) [first] where
  entered := List.cons_ne_nil first []
  part := List.prefix_append [first] rest
  proper := fun hsame => hrest (List.cons.inj hsame).2.symm

/-- What follows a step continues the course of the run. -/
theorem Ends.of_moved {outcome : Except Fault α} {after : Run}
    (h : (r.moved first).Ends rest outcome after) : r.Ends (first :: rest) outcome after := by
  have hhistory (taken : List RunState) :
      (r.moved first).history ++ taken = r.history ++ first :: taken := by
    rw [history_moved, List.append_assoc, List.singleton_append]
  cases h with
  | finished error history => exact .finished error (history.trans (hhistory rest))
  | failed foreseen partway state error history =>
    exact .failed foreseen (partway.cons first) state error (by rw [history, hhistory])
  | abandoned unforeseen partway error history =>
    exact .abandoned unforeseen (partway.cons first) error (history.trans (hhistory _))

/-- A fault at the first state of a course that goes on. -/
theorem ends_recorded (hfailed : .failed ∈ first.next) (hrest : rest ≠ []) (f : Fault) :
    r.Ends (first :: rest) (.error f : Except Fault α)
      ((r.moved first).recorded (.error f : Except Fault α)) := by
  rw [recorded]
  split
  · next hforeseen =>
    rw [fail_eq hfailed]
    exact .failed hforeseen (partway_singleton hrest) rfl rfl rfl
  · next hforeseen =>
    exact .abandoned (by simpa using hforeseen) (partway_singleton hrest) rfl rfl

end Run

/-! ## Stages -/

namespace Stage

variable {α β : Type} {first : RunState} {rest : List RunState} {q : Pipeline}

/-- An operation that starts with an attempt ends as its rest does. -/
theorem ends_attempt (a : Action α) (k : α → Stage β) (hfirst : first ∈ q.run.state.next)
    (hfailed : .failed ∈ first.next) (hrest : rest ≠ [])
    (hk : ∀ x w, (q.run.moved first).Ends rest
      (perform (k x) { world := w, run := q.run.moved first }).1
      (perform (k x) { world := w, run := q.run.moved first }).2.run) :
    q.run.Ends (first :: rest) (perform (advance first >>= fun _ => recording (act a) >>= k) q).1
      (perform (advance first >>= fun _ => recording (act a) >>= k) q).2.run := by
  rw [perform_attempt a k hfirst hfailed]
  rcases perform a q.world with ⟨f | x, w⟩
  · exact Run.ends_recorded hfailed hrest f
  · exact (hk x w).of_moved

/-- A run that does not allow a step is left alone, as is its world. -/
theorem perform_advance_of_notMem (hfirst : first ∉ q.run.state.next) :
    perform (advance first) q = (.error (.illegalStep q.run.state first), q) := by
  rw [perform_advance, Run.advance_of_notMem hfirst]

/-- A run that cannot fail records the fault all the same, and stays where it is. -/
theorem perform_fail_of_notMem {f : Fault} (hfailed : .failed ∉ q.run.state.next) :
    perform (fail f) q =
      (.error (.illegalStep q.run.state .failed), { q with run := { q.run with error := some f } }) := by
  have hillegal : Run.advance { q.run with error := some f } .failed =
      .error (.illegalStep q.run.state .failed) :=
    Run.advance_of_notMem hfailed
  rw [fail, perform_bind, perform_get]
  dsimp only
  rw [perform_bind, perform_set, Run.fail]
  dsimp only
  rw [hillegal]
  rfl

/-- The operation takes every run through the course `first :: rest`.  A run that does not allow its first
state is left alone, and so are all files and tools. -/
def Follows (op : Stage α) (first : RunState) (rest : List RunState) : Prop :=
  ∀ q : Pipeline,
    if first ∈ q.run.state.next then
      q.run.Ends (first :: rest) (perform op q).1 (perform op q).2.run
    else
      perform op q = (.error (.illegalStep q.run.state first), q)

/-- An operation follows its course when it does so on the runs that allow it. -/
theorem follows_of_ends {k : Stage α}
    (h : ∀ q : Pipeline, first ∈ q.run.state.next →
      q.run.Ends (first :: rest) (perform (advance first >>= fun _ => k) q).1
        (perform (advance first >>= fun _ => k) q).2.run) :
    Follows (advance first >>= fun _ => k) first rest := by
  intro q
  split
  · next hfirst => exact h q hfirst
  · next hfirst => rw [perform_bind, perform_advance_of_notMem hfirst]

end Stage

/-! ## Operations -/

namespace PatchTable

theorem patchFile_follows (t : PatchTable) (strict : Bool) (p : Path) :
    Stage.Follows (t.patchFile strict p) .patching [.patched] := by
  refine Stage.follows_of_ends fun q hfirst => ?_
  refine Stage.ends_attempt _ _ hfirst (by decide) (by simp) ?_
  rintro ⟨patched, report, changed⟩ w
  have hpatched : RunState.patched ∈ RunState.patching.next := by decide
  dsimp only
  rw [perform_bind, Stage.perform_act, Action.perform_note (.saved ..) rfl]
  dsimp only
  rw [perform_bind, Stage.perform_advance_moved hpatched]
  exact .finished rfl rfl

end PatchTable

namespace Extraction

theorem run_follows (host : Host) (c : Config) (t : PatchTable) :
    Stage.Follows (run host c t) .extracting [.patching, .patched] := by
  refine Stage.follows_of_ends fun q hfirst => ?_
  refine Stage.ends_attempt _ _ hfirst (by decide) (by simp) ?_
  intro _ w
  have hpatching : RunState.patching ∈ (q.run.moved .extracting).state.next :=
    show RunState.patching ∈ RunState.extracting.next by decide
  -- the patching records its own faults
  have hpatch := t.patchFile_follows c.strictCoverage c.schemaPath
    { world := { w with trace := w.trace ++ [.noticed (.mutating c.schemaPath.text)] }
      run := q.run.moved .extracting }
  rw [if_pos hpatching] at hpatch
  rw [perform_bind, Stage.perform_act, Action.perform_note (.mutating _) rfl]
  exact hpatch

end Extraction

namespace Generation

/-- The states of a run after its client was rendered; a formatter has its own unless it is empty. -/
def finishCourse (c : Config) : List RunState :=
  match c.formatter with
  | none | some [] => [.done]
  | some (_ :: _) => [.formatting, .done]

theorem finishCourse_eq (c : Config) :
    finishCourse c = if (formatCommand c).isSome then [.formatting, .done] else [.done] := by
  rw [finishCourse, formatCommand, Config.formatter?]
  rcases c.formatter with _ | _ | ⟨tool, arguments⟩ <;> rfl

theorem history_finished (c : Config) (r : Run) :
    (finished c r).history = r.history ++ finishCourse c := by
  rw [finished, finishCourse_eq]
  split <;> simp

theorem generate_follows (host : Host) (registry : Registry) (c : Config)
    (generator : Option Generator) (wait : Option Bool) :
    Stage.Follows (generate host registry c generator wait) .generating (finishCourse c) := by
  rw [generate_eq]
  refine Stage.follows_of_ends fun q hfirst => ?_
  refine Stage.ends_attempt _ _ hfirst (by decide) (by rw [finishCourse_eq]; split <;> simp) ?_
  intro _ w
  rw [perform_finish rfl]
  exact .finished (error_finished c _) (history_finished c _)

end Generation

/-! ## Main Result -/

/-- **What an operation returns and what its run has recorded agree**, whatever the files, the tools, the
configuration, the patch table and the generators are, and whatever state the run is in. -/
theorem Stage.operations_follow (host : Host) (registry : Registry) (c : Config) (t : PatchTable) :
    (∀ (strict : Bool) (p : Path), Follows (t.patchFile strict p) .patching [.patched]) ∧
      Follows (Extraction.run host c t) .extracting [.patching, .patched] ∧
      ∀ (generator : Option Generator) (wait : Option Bool),
        Follows (Generation.generate host registry c generator wait) .generating
          (Generation.finishCourse c) :=
  ⟨t.patchFile_follows, Extraction.run_follows host c t, Generation.generate_follows host registry c⟩

end SchemaGraft
