import SchemaGraft.Proofs.Run.Course

/-!
# Histories

Whatever is done with a run, its history is a path of the table of steps.  The table only leads forward, so
that no state comes twice, and a run is patched and done at most once.

## Architecture

- **Order**: `RunState.rank`; every step of the table leads to a higher rank.
- **Steps**: `Run.Step` is what can happen to a run at once, `Run.Reaches` what can happen to it in the end.
  `Run.OnTable` is the invariant, and `Run.Legal` all that follows from it.
- **Stages**: `Stage.Steps`, which every operation has because its parts have it.
- **Sessions**: `Operation` and `Session.carryOut`, with `Session.Counted` as the invariant of a session.
- **Main result**: `Session.history_legal`.
-/

namespace SchemaGraft

/-! ## Order -/

namespace RunState

/-- How far a run has come in a state. -/
def rank : RunState → ℕ
  | .idle => 0
  | .extracting => 1
  | .patching => 2
  | .patched => 3
  | .generating => 4
  | .formatting => 5
  | .done => 6
  | .failed => 7

/-- The table only leads forward. -/
theorem rank_lt_of_mem_next {s s' : RunState} (h : s' ∈ s.next) : s.rank < s'.rank := by
  revert h
  cases s <;> cases s' <;> decide

/-- A run can only be patched when it is patching. -/
theorem eq_patching_of_patched_mem_next {s : RunState} (h : .patched ∈ s.next) : s = .patching := by
  revert h
  cases s <;> decide

/-- A run that has failed or is done takes no more steps. -/
theorem next_eq_nil_iff {s : RunState} : s.next = [] ↔ s = .failed ∨ s = .done := by
  cases s <;> decide

end RunState

/-! ## Steps -/

namespace Run

/-- What can happen to a run at once: it moves to a state that its own allows, or a fault is recorded. -/
inductive Step : Run → Run → Prop where
  | move {r : Run} {target : RunState} (allowed : target ∈ r.state.next) : Step r (r.moved target)
  | record (r : Run) (f : Fault) : Step r { r with error := some f }

/-- What can happen to a run in the end. -/
abbrev Reaches : Run → Run → Prop :=
  Relation.ReflTransGen Step

/-- The history starts idle and goes by the table. -/
structure OnTable (r : Run) : Prop where
  starts : r.history.head? = some .idle
  steps : r.history.IsChain fun s s' => s' ∈ s.next

/-- All that holds for a history that goes by the table. -/
structure Legal (r : Run) : Prop where
  starts : r.history.head? = some .idle
  ends : r.history.getLast? = some r.state
  steps : r.history.IsChain fun s s' => s' ∈ s.next
  distinct : r.history.Nodup
  /-- Nothing follows a failure or the end. -/
  final : ∀ before s after, r.history = before ++ s :: after → s = .failed ∨ s = .done → after = []
  /-- A run is patched after it was patching. -/
  patching : ∀ before after, r.history = before ++ .patched :: after →
    before.getLast? = some .patching

theorem onTable_start : start.OnTable where
  starts := rfl
  steps := .singleton _

variable {r r' : Run}

/-- A step keeps to the table. -/
theorem OnTable.step (h : r.OnTable) (hstep : Step r r') : r'.OnTable := by
  cases hstep with
  | record f => exact ⟨h.starts, h.steps⟩
  -- a move adds its target behind the state that the run was in
  | @move target allowed =>
    constructor
    · rw [history_moved, List.head?_append, h.starts]
      rfl
    · rw [history_moved]
      apply h.steps.append (.singleton target)
      intro s hs s' hs'
      rw [getLast?_history, Option.mem_some_iff] at hs
      rw [List.head?_cons, Option.mem_some_iff] at hs'
      subst hs hs'
      exact allowed

/-- So do any number of steps. -/
theorem OnTable.reaches (h : r.OnTable) (hreaches : Reaches r r') : r'.OnTable := by
  induction hreaches with
  | refl => exact h
  | tail _ hstep ih => exact ih.step hstep

/-- A history only grows. -/
theorem Reaches.history_prefix (h : Reaches r r') : r.history <+: r'.history := by
  induction h with
  | refl => exact List.prefix_rfl
  | tail _ hstep ih =>
    cases hstep with
    | record f => exact ih
    | move _ => exact ih.trans (List.prefix_append _ _)

/-- Ranks go up along the history, so no state can come twice. -/
theorem OnTable.nodup (h : r.OnTable) : r.history.Nodup := by
  have hranks : (r.history.map RunState.rank).IsChain (· < ·) := by
    rw [List.isChain_map]
    exact h.steps.imp fun _ _ => RunState.rank_lt_of_mem_next
  exact List.Nodup.of_map RunState.rank (hranks.pairwise.imp ne_of_lt)

/-- A run that keeps to the table is legal. -/
theorem OnTable.legal (h : r.OnTable) : r.Legal where
  starts := h.starts
  ends := getLast?_history r
  steps := h.steps
  distinct := h.nodup
  final before s after heq hs := by
    have hsteps := h.steps
    rw [heq, List.isChain_split] at hsteps
    -- a final state has no next one, so it is the last
    cases after with
    | nil => rfl
    | cons s' after =>
      have hnext := (List.isChain_cons_cons.mp hsteps.2).1
      rw [RunState.next_eq_nil_iff.mpr hs] at hnext
      cases hnext
  patching before after heq := by
    rcases List.eq_nil_or_concat before with rfl | ⟨before, s, rfl⟩
    · -- the first state is another one
      have hstarts := h.starts
      rw [heq] at hstarts
      cases hstarts
    · have hsteps := h.steps
      rw [heq, List.concat_eq_append, List.append_assoc, List.singleton_append,
        List.isChain_append_cons_cons] at hsteps
      simp [RunState.eq_patching_of_patched_mem_next hsteps.2.1]

end Run

/-! ## Stages -/

namespace Stage

variable {α β : Type}

/-- Whatever its outcome, the stage has taken the run from step to step. -/
def Steps (op : Stage α) : Prop :=
  ∀ q : Pipeline, Run.Reaches q.run (perform op q).2.run

theorem steps_pure (x : α) : Steps (pure x) := fun _ => .refl

/-- A fault is no step, nor is a value. -/
theorem steps_throw (f : Fault) : Steps (throw f : Stage α) := fun _ => .refl

/-- Steps of two operations are steps of both in a row. -/
theorem Steps.bind {op : Stage α} {k : α → Stage β} (hop : Steps op) (hk : ∀ x, Steps (k x)) :
    Steps (op >>= k) := by
  intro q
  have hfirst := hop q
  rw [perform_bind]
  rcases hq : perform op q with ⟨f | x, q'⟩
  all_goals rw [hq] at hfirst
  · exact hfirst
  · exact hfirst.trans (hk x q')

/-- A handler takes its steps after those of the operation that has failed. -/
theorem Steps.tryCatch {op : Stage α} {handler : Fault → Stage α} (hop : Steps op)
    (hhandler : ∀ f, Steps (handler f)) : Steps (tryCatch op handler) := by
  intro q
  have hfirst := hop q
  rw [perform_tryCatch]
  rcases hq : perform op q with ⟨f | x, q'⟩
  all_goals rw [hq] at hfirst
  · exact hfirst.trans (hhandler f q')
  · exact hfirst

/-- An action leaves the run alone. -/
theorem steps_act (a : Action α) : Steps (act a) := by
  intro q
  rw [perform_act]

theorem steps_advance (target : RunState) : Steps (advance target) := by
  intro q
  by_cases h : target ∈ q.run.state.next
  · rw [perform_advance_moved h]
    exact .single (.move h)
  · rw [perform_advance_of_notMem h]

/-- A fault is recorded even where the run cannot fail. -/
theorem steps_fail (f : Fault) : Steps (fail f) := by
  intro q
  have hrecorded : Run.Step q.run { q.run with error := some f } := .record q.run f
  by_cases h : .failed ∈ q.run.state.next
  · rw [perform_fail h, Run.fail_eq h]
    exact .tail (.single hrecorded) (.move h)
  · rw [perform_fail_of_notMem h]
    exact .single hrecorded

/-- What is recorded takes one step more if it fails. -/
theorem Steps.recording {body : Stage α} (h : Steps body) : Steps (recording body) := by
  apply h.tryCatch
  intro f
  dsimp only
  split
  · exact (steps_fail f).bind fun _ => steps_throw f
  · exact steps_throw f

/-- What a stage has done to the history when it succeeds. -/
theorem Follows.history_of_ok {op : Stage α} {first : RunState} {rest : List RunState}
    (h : Follows op first rest) {q : Pipeline} {x : α} (hok : (perform op q).1 = .ok x) :
    (perform op q).2.run.history = q.run.history ++ first :: rest := by
  have hq := h q
  split at hq
  · rw [hok] at hq
    cases hq with
    | finished _ history => exact history
  · rw [hq] at hok
    cases hok

end Stage

/-! ## Operations -/

/-- A patch of a file moves its run along the table. -/
theorem PatchTable.steps_patchFile (t : PatchTable) (strict : Bool) (p : Path) :
    Stage.Steps (t.patchFile strict p) := by
  unfold PatchTable.patchFile
  apply (Stage.steps_advance _).bind
  intro _
  apply (Stage.steps_act _).recording.bind
  intro _
  apply (Stage.steps_act _).bind
  intro _
  exact (Stage.steps_advance _).bind fun _ => Stage.steps_pure _

/-- So does an extraction. -/
theorem Extraction.steps_run (host : Host) (c : Config) (t : PatchTable) :
    Stage.Steps (run host c t) := by
  unfold Extraction.run
  apply (Stage.steps_advance _).bind
  intro _
  apply (Stage.steps_act _).recording.bind
  intro _
  exact (Stage.steps_act _).bind fun _ => t.steps_patchFile _ _

namespace Generation

/-- What follows when a client has been generated takes no step. -/
theorem steps_formatted (host : Host) (client : Client) (wait : Bool) :
    Stage.Steps (formatted host client wait) := by
  unfold formatted
  split
  · exact (Stage.steps_act _).bind fun _ => Stage.steps_pure _
  · exact Stage.steps_pure _

theorem steps_finish (host : Host) (c : Config) (wait : Option Bool) :
    Stage.Steps (finish host c wait) := by
  have hlast (client : Client) : Stage.Steps (do
      let client ← formatted host client (wait.getD c.waitForFormatter)
      Stage.advance .done
      return client) :=
    (steps_formatted host client _).bind fun _ =>
      (Stage.steps_advance _).bind fun _ => Stage.steps_pure _
  unfold finish
  dsimp only
  -- without a formatter the run goes on to `done` at once
  split
  · exact (Stage.steps_advance _).bind fun _ => hlast _
  · exact hlast _

/-- A generation moves its run along the table, with any generator. -/
theorem steps_generate (host : Host) (registry : Registry) (c : Config)
    (generator : Option Generator) (wait : Option Bool) :
    Stage.Steps (generate host registry c generator wait) := by
  rw [generate_eq]
  apply (Stage.steps_advance _).bind
  intro _
  exact (Stage.steps_act _).recording.bind fun _ => steps_finish host c wait

end Generation

/-! ## Sessions -/

/-- What can be done with a run, and what can happen around it. -/
inductive Operation where
  -- a new run takes the place of the present one
  | newRun
  | advance (target : RunState)
  | fail (f : Fault)
  | patchFile (t : PatchTable) (strict : Bool) (p : Path)
  | extract (host : Host) (c : Config) (t : PatchTable)
  | generate (host : Host) (registry : Registry) (c : Config) (generator : Option Generator)
      (wait : Option Bool)
  -- the files change, or something shows outside, without the run
  | meanwhile (w : World)

namespace Operation

/-- The operation as a stage, without its result. -/
def stage : Operation → Stage PUnit
  | .newRun => modify fun q => { q with run := .start }
  | .advance target => Stage.advance target
  | .fail f => Stage.fail f
  | .patchFile t strict p => t.patchFile strict p >>= fun _ => pure ⟨⟩
  | .extract host c t => Extraction.run host c t >>= fun _ => pure ⟨⟩
  | .generate host registry c generator wait =>
    Generation.generate host registry c generator wait >>= fun _ => pure ⟨⟩
  | .meanwhile w => modify fun q => { q with world := w }

/-- Does the operation start a new run? -/
def isNewRun : Operation → Bool
  | .newRun => true
  | _ => false

/-- Is patching a file the goal of the operation? -/
def patches : Operation → Bool
  | .patchFile .. | .extract .. => true
  | _ => false

/-- Is generating a client the goal of the operation? -/
def generates : Operation → Bool
  | .generate .. => true
  | _ => false

theorem steps_stage {op : Operation} (h : op.isNewRun = false) : Stage.Steps op.stage := by
  cases op with
  | newRun => cases h
  | advance target => exact Stage.steps_advance target
  | fail f => exact Stage.steps_fail f
  | patchFile t strict p => exact (t.steps_patchFile strict p).bind fun _ => Stage.steps_pure _
  | extract host c t => exact (Extraction.steps_run host c t).bind fun _ => Stage.steps_pure _
  | generate host registry c generator wait =>
    exact (Generation.steps_generate host registry c generator wait).bind fun _ => Stage.steps_pure _
  | meanwhile w => exact fun q => .refl

/-- An operation without its result follows the course that it follows with it. -/
theorem history_of_ok {α : Type} {body : Stage α} {first : RunState} {rest : List RunState}
    (h : Stage.Follows body first rest) {q q' : Pipeline}
    (hok : perform (body >>= fun _ => pure PUnit.unit) q = (.ok ⟨⟩, q')) :
    q'.run.history = q.run.history ++ first :: rest := by
  obtain ⟨x, u, hbody, hpure⟩ := perform_bind_eq_ok_iff.mp hok
  cases hpure
  have hhistory := h.history_of_ok (congrArg Prod.fst hbody)
  rwa [hbody] at hhistory

/-- An operation that succeeds in patching has taken its run through the patched state. -/
theorem count_patched {op : Operation} (hop : op.patches = true) {q q' : Pipeline}
    (h : perform op.stage q = (.ok ⟨⟩, q')) :
    q'.run.history.count .patched = q.run.history.count .patched + 1 := by
  cases op with
  | patchFile t strict p =>
    rw [history_of_ok (t.patchFile_follows strict p) h, List.count_append]
    rfl
  | extract host c t =>
    rw [history_of_ok (Extraction.run_follows host c t) h, List.count_append]
    rfl
  | _ => cases hop

/-- An operation that succeeds in generating has brought its run to the end. -/
theorem count_done {op : Operation} (hop : op.generates = true) {q q' : Pipeline}
    (h : perform op.stage q = (.ok ⟨⟩, q')) :
    q'.run.history.count .done = q.run.history.count .done + 1 := by
  cases op with
  | generate host registry c generator wait =>
    rw [history_of_ok (Generation.generate_follows host registry c generator wait) h,
      Generation.finishCourse_eq, List.count_append]
    split <;> rfl
  | _ => cases hop

end Operation

/-- A run in its world, and what has been achieved with it. -/
structure Session where
  pipeline : Pipeline
  -- the operations that have succeeded since the run was started
  succeeded : List Operation := []

namespace Session

/-- Carries an operation out.  One that fails does not end the session. -/
def carryOut (s : Session) (op : Operation) : Session :=
  match perform op.stage s.pipeline with
  | (.ok _, pipeline) =>
    { pipeline, succeeded := if op.isNewRun then [] else s.succeeded ++ [op] }
  | (.error _, pipeline) => { s with pipeline }

/-- The session after some operations. -/
def after (w : World) (ops : List Operation) : Session :=
  ops.foldl carryOut { pipeline := { world := w } }

/-- The history goes by the table, and what has succeeded is in it. -/
structure Counted (s : Session) : Prop where
  onTable : s.pipeline.run.OnTable
  patched : s.succeeded.countP Operation.patches ≤ s.pipeline.run.history.count .patched
  done : s.succeeded.countP Operation.generates ≤ s.pipeline.run.history.count .done

/-- In a fresh run nothing has succeeded yet. -/
theorem counted_of_fresh (w : World) : Counted { pipeline := { world := w } } where
  onTable := Run.onTable_start
  patched := Nat.zero_le _
  done := Nat.zero_le _

/-- A success counts for a state if the operation has taken the run there. -/
theorem countP_append_le {kind : Operation → Bool} {state : RunState} {s : Session} {op : Operation}
    {q : Pipeline} (hs : s.succeeded.countP kind ≤ s.pipeline.run.history.count state)
    (hreaches : Run.Reaches s.pipeline.run q.run)
    (hop : kind op = true → q.run.history.count state = s.pipeline.run.history.count state + 1) :
    (s.succeeded ++ [op]).countP kind ≤ q.run.history.count state := by
  have hgrown := hreaches.history_prefix.count_le state
  rw [List.countP_append, List.countP_singleton]
  split
  · next hkind =>
    have hcount := hop hkind
    omega
  · omega

/-- **Every operation keeps the session counted.** -/
theorem Counted.carryOut {s : Session} (h : s.Counted) (op : Operation) :
    (s.carryOut op).Counted := by
  unfold Session.carryOut
  by_cases hnew : op.isNewRun = true
  · cases op with
    | newRun => exact counted_of_fresh s.pipeline.world
    | _ => cases hnew
  · have hsteps := Operation.steps_stage (Bool.eq_false_iff.mpr hnew) s.pipeline
    rcases hperform : perform op.stage s.pipeline with ⟨f | _, q⟩
    all_goals
      rw [hperform] at hsteps
      dsimp only at hsteps ⊢
    -- an operation that fails may have taken steps before it did
    · have hgrown := hsteps.history_prefix.count_le
      exact ⟨h.onTable.reaches hsteps, h.patched.trans (hgrown _), h.done.trans (hgrown _)⟩
    · rw [if_neg hnew]
      exact ⟨h.onTable.reaches hsteps,
        countP_append_le h.patched hsteps fun hop => Operation.count_patched hop hperform,
        countP_append_le h.done hsteps fun hop => Operation.count_done hop hperform⟩

/-- After any operations, each of those that have succeeded shows in the history of the run. -/
theorem counted_after (w : World) (ops : List Operation) : (after w ops).Counted := by
  have hfold (s : Session) (hs : s.Counted) : (ops.foldl Session.carryOut s).Counted := by
    induction ops generalizing s with
    | nil => exact hs
    | cons op ops ih => exact ih _ (hs.carryOut op)
  exact hfold _ (counted_of_fresh w)

/-- **The history of a run is a legal path**, after any operations in any order, whatever the files, the
tools, the generators and the tables are and whatever happens to the files in between, and whether the
operations succeed or fail.  Therefore at most one patch or extraction succeeds in a run, and at most one
generation. -/
theorem history_legal (w : World) (ops : List Operation) :
    (after w ops).pipeline.run.Legal ∧
      (after w ops).succeeded.countP Operation.patches ≤ 1 ∧
      (after w ops).succeeded.countP Operation.generates ≤ 1 := by
  have hcounted := counted_after w ops
  have honce := List.nodup_iff_count_le_one.mp hcounted.onTable.nodup
  exact ⟨hcounted.onTable.legal, hcounted.patched.trans (honce .patched),
    hcounted.done.trans (honce .done)⟩

/-- Steps that the table does not allow are refused, and the run goes on from where it was. -/
example (w : World) :
    (after w [.advance .patching, .advance .generating, .advance .failed, .advance .patched]).pipeline.run.history =
      [.idle, .patching, .failed] := rfl

end Session

end SchemaGraft
