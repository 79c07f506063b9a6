import SchemaGraft.Proofs.Run.History

/-!
# Recorded Errors

A run keeps the error of the call that made it fail.  It also keeps the error of a call of `fail` that it
refuses, because the error is recorded before the step is checked: such a run has an error without having
failed, or has lost the error with which it failed.

## Architecture

- **Courses**: an operation that follows a course without `failed` keeps the error, or fails with its own:
  `Stage.Follows.keeps_or_fails`.
- **Calls**: `Operation.Effect` has a constructor for each thing that a call can do to state and error;
  `Operation.effect` shows that there is no other.
- **Sessions**: `Session.Since` speaks of the calls on the present run.  `Session.Accounted` is the
  invariant, kept by every call.
- **Main result**: `Session.errors_accounted`.
-/

namespace SchemaGraft

/-! ## Courses -/

namespace Run

variable {α : Type} {before after : Run} {course taken : List RunState} {outcome : Except Fault α}

/-- The error is the same, and the run has failed if it had. -/
structure Keeps (before after : Run) : Prop where
  error : after.error = before.error
  failed_iff : after.state = .failed ↔ before.state = .failed

/-- The run has now failed, with this error. -/
structure FailsWith (f : Fault) (before after : Run) : Prop where
  before_ne : before.state ≠ .failed
  state : after.state = .failed
  error : after.error = some f

theorem Keeps.refl (r : Run) : Keeps r r :=
  ⟨rfl, Iff.rfl⟩

/-- A run is in one of the states that it has taken last. -/
theorem state_mem_of_history (h : after.history = before.history ++ taken) (htaken : taken ≠ []) :
    after.state ∈ taken := by
  have hlast := getLast?_history after
  rw [h, List.getLast?_append_of_ne_nil _ htaken] at hlast
  exact List.mem_of_getLast? hlast

/-- A course without `failed` ends in failure only through the fault that it returns. -/
theorem Ends.keeps_or_fails (h : before.Ends course outcome after) (hcourse : course ≠ [])
    (hfailed : .failed ∉ course) (hbefore : before.state ≠ .failed) :
    Keeps before after ∨ ∃ f, outcome = .error f ∧ FailsWith f before after := by
  have hkeeps (herror : after.error = before.error) (hstate : after.state ∈ course) :
      Keeps before after :=
    ⟨herror, iff_of_false (fun h => hfailed (h ▸ hstate)) hbefore⟩
  -- only a stage that failed has put an error into the run
  cases h with
  | finished error history => exact .inl (hkeeps error (state_mem_of_history history hcourse))
  | failed foreseen partway state error history =>
    exact .inr ⟨_, rfl, hbefore, state, error⟩
  | abandoned unforeseen partway error history =>
    exact .inl (hkeeps error (partway.part.subset (state_mem_of_history history partway.entered)))

end Run

/-- A failed run is left alone, so that only a run that has not failed yet can fail. -/
theorem Stage.Follows.keeps_or_fails {α : Type} {body : Stage α} {first : RunState}
    {rest : List RunState} (h : Follows body first rest) (hfailed : .failed ∉ first :: rest)
    (q : Pipeline) :
    q.run.Keeps (perform body q).2.run ∨
      ∃ f, (perform body q).1 = .error f ∧ q.run.FailsWith f (perform body q).2.run := by
  have hq := h q
  split at hq
  · next hfirst =>
    -- nothing can be done with a failed run
    refine hq.keeps_or_fails (List.cons_ne_nil first rest) hfailed fun hstate => ?_
    rw [hstate] at hfirst
    cases hfirst
  · rw [hq]
    exact .inl (.refl q.run)

theorem Generation.failed_notMem_course (c : Config) : .failed ∉ .generating :: finishCourse c := by
  rw [finishCourse_eq]
  split <;> decide

/-! ## Calls -/

namespace Operation

/-- The error of a call: the one that it is to record, or else the one that it raises. -/
def error? (op : Operation) (q : Pipeline) : Option Fault :=
  match op with
  | .fail f => some f
  | op =>
    match (perform op.stage q).1 with
    | .ok _ => none
    | .error f => some f

theorem error?_of_raised {op : Operation} {q : Pipeline} {f : Fault} (hfail : ∀ f, op ≠ .fail f)
    (h : (perform op.stage q).1 = .error f) : op.error? q = some f := by
  cases op with
  | fail g => exact absurd rfl (hfail g)
  | _ =>
    dsimp only [error?]
    rw [h]

/-- The call makes the run fail, and this is its error. -/
structure Fails (op : Operation) (f : Fault) (q : Pipeline) : Prop where
  error : op.error? q = some f
  before_ne : q.run.state ≠ .failed
  state : (perform op.stage q).2.run.state = .failed

/-- The call is to let the run fail with this error, but the run cannot fail in its state. -/
structure Refused (op : Operation) (f : Fault) (q : Pipeline) : Prop where
  call : op = .fail f
  stuck : .failed ∉ q.run.state.next

/-- What a call does to the state and the error of the run. -/
inductive Effect (op : Operation) (q : Pipeline) : Run → Prop where
  | fresh (new : op = .newRun) : Effect op q .start
  | kept {after : Run} (old : op.isNewRun = false) (accepted : ∀ f, ¬ op.Refused f q)
      (keeps : q.run.Keeps after) : Effect op q after
  | failed {after : Run} {f : Fault} (error : op.error? q = some f)
      (fails : q.run.FailsWith f after) : Effect op q after
  | refused {f : Fault} (refused : op.Refused f q) : Effect op q { q.run with error := some f }

/-- A call whose body keeps the error, or makes the run fail with the fault that it raises. -/
theorem Effect.of_body {α : Type} {op : Operation} {q : Pipeline} {body : Stage α}
    (hnew : op.isNewRun = false) (hfail : ∀ f, op ≠ .fail f)
    (hstage : op.stage = body >>= fun _ => pure ⟨⟩)
    (h : q.run.Keeps (perform body q).2.run ∨
      ∃ f, (perform body q).1 = .error f ∧ q.run.FailsWith f (perform body q).2.run) :
    op.Effect q (perform op.stage q).2.run := by
  have hperform : perform op.stage q = ((perform body q).1.map fun _ => ⟨⟩, (perform body q).2) := by
    rw [hstage, perform_bind]
    rcases perform body q with ⟨_ | _, _⟩ <;> rfl
  -- what the body does to the run is what the operation does, as its result is thrown away
  rcases h with hkeeps | ⟨f, hf, hfails⟩
  · rw [hperform]
    exact .kept hnew (fun f hrefused => hfail f hrefused.call) hkeeps
  · have hraised : (perform op.stage q).1 = .error f := by
      rw [hperform, hf]
      rfl
    rw [hperform]
    exact .failed (error?_of_raised hfail hraised) hfails

/-- **Every call has one of these effects**, unless it moves the run to `failed` by hand. -/
theorem effect {op : Operation} (hop : op ≠ .advance .failed) (q : Pipeline) :
    op.Effect q (perform op.stage q).2.run := by
  cases op with
  | newRun => exact .fresh rfl
  | meanwhile w => exact .kept rfl (fun f hrefused => by cases hrefused.call) (.refl q.run)
  | advance target =>
    refine .kept rfl (fun f hrefused => by cases hrefused.call) ?_
    rw [stage]
    by_cases h : target ∈ q.run.state.next
    · rw [Stage.perform_advance_moved h]
      refine ⟨rfl, iff_of_false (fun htarget => hop (congrArg advance htarget)) fun hstate => ?_⟩
      rw [hstate] at h
      cases h
    · rw [Stage.perform_advance_of_notMem h]
      exact .refl q.run
  | fail f =>
    by_cases h : .failed ∈ q.run.state.next
    · rw [stage, Stage.perform_fail h, Run.fail_eq h]
      refine .failed rfl ⟨fun hstate => ?_, rfl, rfl⟩
      rw [hstate] at h
      cases h
    · rw [stage, Stage.perform_fail_of_notMem h]
      exact .refused ⟨rfl, h⟩
  -- what is left follows a course, whose own faults make the run fail
  | patchFile t strict p =>
    exact .of_body rfl (by simp) rfl ((t.patchFile_follows strict p).keeps_or_fails (by decide) q)
  | extract host c t =>
    exact .of_body rfl (by simp) rfl
      ((Extraction.run_follows host c t).keeps_or_fails (by decide) q)
  | generate host registry c generator wait =>
    exact .of_body rfl (by simp) rfl
      ((Generation.generate_follows host registry c generator wait).keeps_or_fails
        (Generation.failed_notMem_course c) q)

end Operation

/-! ## Sessions -/

namespace Session

variable {w : World} {ops : List Operation} {op : Operation} {P : Operation → Pipeline → Prop}

theorem pipeline_after_concat (w : World) (ops : List Operation) (op : Operation) :
    (after w (ops ++ [op])).pipeline = (perform op.stage (after w ops).pipeline).2 := by
  have hafter : after w (ops ++ [op]) = (after w ops).carryOut op := List.foldl_concat ..
  rw [hafter, carryOut]
  rcases perform op.stage (after w ops).pipeline with ⟨_ | _, _⟩ <;> rfl

/-- A call that makes the run fail leaves it failed. -/
theorem state_of_fails {f : Fault} (h : op.Fails f (after w ops).pipeline) :
    (after w (ops ++ [op])).pipeline.run.state = .failed := by
  rw [pipeline_after_concat]
  exact h.state

/-- Since the present run was started there was such a call, in such a state. -/
def Since (w : World) (ops : List Operation) (P : Operation → Pipeline → Prop) : Prop :=
  ∃ before op later, ops = before ++ op :: later ∧ (∀ o ∈ later, o.isNewRun = false) ∧
    P op (after w before).pipeline

theorem Since.now (h : P op (after w ops).pipeline) : Since w (ops ++ [op]) P :=
  ⟨ops, op, [], rfl, by simp, h⟩

theorem since_concat :
    Since w (ops ++ [op]) P ↔
      P op (after w ops).pipeline ∨ op.isNewRun = false ∧ Since w ops P := by
  constructor
  · rintro ⟨before, o, later, heq, hlater, hP⟩
    -- what held since the last new run holds of the last operation, or of one before it
    rcases List.append_singleton_eq_iff.mp heq with ⟨rfl, rfl, rfl⟩ | ⟨later, rfl, rfl⟩
    · exact .inl hP
    · rw [List.forall_mem_append] at hlater
      exact .inr ⟨hlater.2 _ (List.mem_singleton_self _), before, o, later, rfl, hlater.1, hP⟩
  · rintro (hnow | ⟨hnew, before, o, later, rfl, hlater, hP⟩)
    · exact .now hnow
    · refine ⟨before, o, later ++ [op], by simp, ?_, hP⟩
      rw [List.forall_mem_append, List.forall_mem_singleton]
      exact ⟨hlater, hnew⟩

/-- Another call on the same run. -/
theorem since_concat_of_not (hold : op.isNewRun = false) (hnow : ¬ P op (after w ops).pipeline) :
    Since w (ops ++ [op]) P ↔ Since w ops P := by
  simp [since_concat, hold, hnow]

/-- Where the error of the present run comes from. -/
structure Accounted (w : World) (ops : List Operation) : Prop where
  /-- There is an error when the run has failed, and when it has refused to. -/
  isSome_iff : (after w ops).pipeline.run.error.isSome = true ↔
    (after w ops).pipeline.run.state = .failed ∨ ∃ f, Since w ops (·.Refused f)
  /-- The run has failed because a call made it fail. -/
  failed_iff : (after w ops).pipeline.run.state = .failed ↔ ∃ f, Since w ops (·.Fails f)
  /-- The error is that of such a call, or of one that was refused. -/
  source : ∀ f, (after w ops).pipeline.run.error = some f →
    Since w ops (·.Fails f) ∨ Since w ops (·.Refused f)
  /-- The error of the call that made the run fail stays, until the failed run refuses to fail again. -/
  kept : ∀ f, Since w ops (·.Fails f) → (after w ops).pipeline.run.error = some f ∨
    ∃ g, Since w ops fun op q => op.Refused g q ∧ q.run.state = .failed

theorem accounted_nil (w : World) : Accounted w [] := by
  have hnone (P : Operation → Pipeline → Prop) : ¬ Since w [] P := by
    rintro ⟨before, op, later, heq, -⟩
    simp at heq
  constructor <;> simp [hnone, after, Run.start]

theorem accounted_newRun (w : World) (ops : List Operation) : Accounted w (ops ++ [.newRun]) := by
  have hrun : (after w (ops ++ [.newRun])).pipeline.run = .start := by
    rw [pipeline_after_concat]
    rfl
  -- nothing that held before a new run holds since
  have hnone {P : Operation → Pipeline → Prop} (hnow : ¬ P .newRun (after w ops).pipeline) :
      ¬ Since w (ops ++ [.newRun]) P := by
    rw [since_concat]
    rintro (h | ⟨hold, -⟩)
    · exact hnow h
    · cases hold
  have hfails (f : Fault) : ¬ Since w (ops ++ [.newRun]) (·.Fails f) := by
    refine hnone fun hf => ?_
    have hstate := state_of_fails hf
    rw [hrun] at hstate
    cases hstate
  have hrefused (f : Fault) : ¬ Since w (ops ++ [.newRun]) (·.Refused f) :=
    hnone fun hf => by cases hf.call
  constructor <;> simp [hrun, hfails, hrefused, Run.start]

/-- A call that keeps the error adds nothing to what has happened. -/
theorem Accounted.of_keeps (h : Accounted w ops) (hold : op.isNewRun = false)
    (haccepted : ∀ f, ¬ op.Refused f (after w ops).pipeline)
    (hkeeps : (after w ops).pipeline.run.Keeps (after w (ops ++ [op])).pipeline.run) :
    Accounted w (ops ++ [op]) := by
  -- the operation neither fails nor is refused, so whatever held since the new run still does
  have hfails (f : Fault) : Since w (ops ++ [op]) (·.Fails f) ↔ Since w ops (·.Fails f) :=
    since_concat_of_not hold fun hf => hf.before_ne (hkeeps.failed_iff.mp (state_of_fails hf))
  have hrefused (f : Fault) : Since w (ops ++ [op]) (·.Refused f) ↔ Since w ops (·.Refused f) :=
    since_concat_of_not hold (haccepted f)
  have hagain (f : Fault) : Since w (ops ++ [op]) (fun op q => op.Refused f q ∧ q.run.state = .failed) ↔
      Since w ops (fun op q => op.Refused f q ∧ q.run.state = .failed) :=
    since_concat_of_not hold fun hf => haccepted f hf.1
  constructor
  all_goals simp only [hkeeps.error, hkeeps.failed_iff, hfails, hrefused, hagain]
  · exact h.isSome_iff
  · exact h.failed_iff
  · exact h.source
  · exact h.kept

/-- A call that makes the run fail is the first to do so. -/
theorem Accounted.of_failsWith {f : Fault} (h : Accounted w ops)
    (herror : op.error? (after w ops).pipeline = some f)
    (hfails : (after w ops).pipeline.run.FailsWith f (after w (ops ++ [op])).pipeline.run) :
    Accounted w (ops ++ [op]) := by
  have hnow : Since w (ops ++ [op]) (·.Fails f) := by
    refine .now ⟨herror, hfails.before_ne, ?_⟩
    rw [← pipeline_after_concat]
    exact hfails.state
  constructor
  · exact iff_of_true (by rw [hfails.error]; rfl) (.inl hfails.state)
  · exact iff_of_true hfails.state ⟨f, hnow⟩
  · intro g hg
    cases hfails.error.symm.trans hg
    exact .inl hnow
  · intro g hg
    -- an earlier call cannot have made the run fail, since it had not failed before this one
    rcases since_concat.mp hg with hg | ⟨-, hg⟩
    · exact .inl (hfails.error.trans (herror.symm.trans hg.error))
    · exact absurd (h.failed_iff.mpr ⟨g, hg⟩) hfails.before_ne

theorem Accounted.of_refused {f : Fault} (h : Accounted w ops)
    (hrefused : op.Refused f (after w ops).pipeline)
    (hrun : (after w (ops ++ [op])).pipeline.run =
      { (after w ops).pipeline.run with error := some f }) :
    Accounted w (ops ++ [op]) := by
  have hold : op.isNewRun = false := by
    rw [hrefused.call]
    rfl
  -- the state is the same, so that this is not the call that makes the run fail
  have hfails (g : Fault) : Since w (ops ++ [op]) (·.Fails g) ↔ Since w ops (·.Fails g) := by
    refine since_concat_of_not hold fun hg => hg.before_ne ?_
    have hstate := state_of_fails hg
    rwa [hrun] at hstate
  constructor
  all_goals simp only [hrun, hfails]
  · exact iff_of_true rfl (.inr ⟨f, .now hrefused⟩)
  · exact h.failed_iff
  · intro g hg
    cases hg
    exact .inr (.now hrefused)
  · intro g hg
    exact .inr ⟨f, .now ⟨hrefused, h.failed_iff.mpr ⟨g, hg⟩⟩⟩

/-- **Every call keeps the errors accounted for.** -/
theorem Accounted.concat (h : Accounted w ops) (hop : op ≠ .advance .failed) :
    Accounted w (ops ++ [op]) := by
  have heffect := Operation.effect hop (after w ops).pipeline
  rw [← pipeline_after_concat] at heffect
  generalize hrun : (after w (ops ++ [op])).pipeline.run = r at heffect
  -- by the effect of the last operation on the run
  cases heffect with
  | fresh new =>
    rw [new]
    exact accounted_newRun w ops
  | kept old accepted keeps => exact h.of_keeps old accepted (hrun ▸ keeps)
  | failed error fails => exact h.of_failsWith error (hrun ▸ fails)
  | refused refused => exact h.of_refused refused hrun

theorem accounted_after (hops : ∀ op ∈ ops, op ≠ .advance .failed) : Accounted w ops := by
  induction ops using List.reverseRecOn with
  | nil => exact accounted_nil w
  | append_singleton ops op ih =>
    rw [List.forall_mem_append, List.forall_mem_singleton] at hops
    exact (ih hops.1).concat hops.2

/-- **A recorded error means a failed run, unless the run has refused to fail.**  After any calls in any
order, whether they succeed or raise, that do not move the run to `failed` by hand: there is an error when
the run has failed or has refused a call of `fail`; a run has failed because a call made it fail, and it keeps
the error of this call until it refuses to fail again.  In a run that has refused nothing, the error is
that of the call that made it fail.  A step that is refused changes nothing, and a refused `fail` records
its error and changes nothing else. -/
theorem errors_accounted (w : World) (ops : List Operation)
    (hops : ∀ op ∈ ops, op ≠ .advance .failed) :
    Accounted w ops ∧
      ((∀ f, ¬ Since w ops (·.Refused f)) →
        ∀ f, (after w ops).pipeline.run.error = some f ↔ Since w ops (·.Fails f)) ∧
      (∀ (q q' : Pipeline) (target : RunState) (f : Fault),
        perform (Operation.advance target).stage q = (.error f, q') → q' = q) ∧
      ∀ (q q' : Pipeline) (f g : Fault), perform (Operation.fail f).stage q = (.error g, q') →
        q' = { q with run := { q.run with error := some f } } := by
  have haccounted : Accounted w ops := accounted_after hops
  refine ⟨haccounted, fun hrefused f => ⟨fun hf => ?_, fun hf => ?_⟩, ?_, ?_⟩
  -- an error comes from an operation that failed or was refused, and none was refused
  · exact (haccounted.source f hf).resolve_right (hrefused f)
  · refine (haccounted.kept f hf).resolve_right ?_
    rintro ⟨g, before, op, later, heq, hlater, hg, -⟩
    exact hrefused g ⟨before, op, later, heq, hlater, hg⟩
  · intro q q' target f h
    by_cases htarget : target ∈ q.run.state.next
    · rw [Operation.stage, Stage.perform_advance_moved htarget] at h
      cases h
    · rw [Operation.stage, Stage.perform_advance_of_notMem htarget] at h
      cases h
      rfl
  · intro q q' f g h
    by_cases hfailed : .failed ∈ q.run.state.next
    · rw [Operation.stage, Stage.perform_fail hfailed] at h
      cases h
    · rw [Operation.stage, Stage.perform_fail_of_notMem hfailed] at h
      cases h
      rfl

end Session

/-! ## A Run That Refuses to Fail -/

namespace Refusing

def world : World where
  files := { home := [], entries := [] }

/-- A call of `fail` on a run that has not done anything yet. -/
def early : List Operation := [.fail .emptyCommand]

/-- A call of `fail` on a run that has failed already. -/
def late : List Operation :=
  [.advance .patching, .fail (.pipeline (.general "first")), .fail (.pipeline (.general "second"))]

/-- The first run has an error and has not failed; the second has lost the error with which it failed. -/
theorem error_without_failure :
    ((∀ op ∈ early, op ≠ .advance .failed) ∧ ∀ op ∈ late, op ≠ .advance .failed) ∧
      ((Session.after world early).pipeline.run.error.isSome = true ∧
        (Session.after world early).pipeline.run.state = .idle) ∧
      (Session.after world late).pipeline.run.state = .failed ∧
      (Session.after world late).pipeline.run.error = some (.pipeline (.general "second")) := by
  have hearly : ∀ op ∈ early, op ≠ .advance .failed := by simp [early]
  have hlate : ∀ op ∈ late, op ≠ .advance .failed := by simp [late]
  refine ⟨⟨hearly, hlate⟩, ⟨?_, rfl⟩, ?_, rfl⟩
  · apply (Session.errors_accounted world early hearly).1.isSome_iff.mpr
    exact .inr ⟨.emptyCommand, [], _, [], rfl, by simp, rfl, by decide⟩
  · apply (Session.errors_accounted world late hlate).1.failed_iff.mpr
    exact ⟨.pipeline (.general "first"), [.advance .patching], _, [_], rfl, by simp [Operation.isNewRun],
      rfl, by decide, rfl⟩

end Refusing

end SchemaGraft
