import Mathlib.Tactic
import SchemaGraft.Run.Stage

/-!
# Performing Actions

The outcome of an action or a stage, together with the state it leaves behind.

## Architecture

- **Outcomes**: `perform`, with one lemma for each operation that actions are made of.
- **Success**: `perform_bind_eq_ok_iff` takes a chain of operations apart.
- **Events**: `Action.perform_emitAll`, and `Action.perform_notes` for notices.
- **Stages**: `Stage.perform_act` and `Stage.perform_advance`, with `Stage.perform_recording_act` for actions
  whose faults are recorded, and `Stage.perform_attempt` for a step with such an action.
-/

namespace SchemaGraft

section

variable {σ α β : Type}

/-! ## Outcomes -/

/-- The outcome of an operation, and the state after it. -/
def perform (a : ExceptT Fault (StateM σ) α) (s : σ) : Except Fault α × σ :=
  a.run.run s

@[simp] theorem perform_pure (x : α) (s : σ) :
    perform (pure x : ExceptT Fault (StateM σ) α) s = (.ok x, s) := rfl

@[simp] theorem perform_throw (f : Fault) (s : σ) :
    perform (throw f : ExceptT Fault (StateM σ) α) s = (.error f, s) := rfl

@[simp] theorem perform_get (s : σ) :
    perform (get : ExceptT Fault (StateM σ) σ) s = (.ok s, s) := rfl

@[simp] theorem perform_set (s' s : σ) :
    perform (set s' : ExceptT Fault (StateM σ) PUnit) s = (.ok ⟨⟩, s') := rfl

@[simp] theorem perform_modify (f : σ → σ) (s : σ) :
    perform (modify f : ExceptT Fault (StateM σ) PUnit) s = (.ok ⟨⟩, f s) := rfl

/-- The second operation is performed if the first has succeeded, in the state that it has left. -/
theorem perform_bind (a : ExceptT Fault (StateM σ) α) (f : α → ExceptT Fault (StateM σ) β) (s : σ) :
    perform (a >>= f) s =
      match perform a s with
      | (.ok x, s') => perform (f x) s'
      | (.error e, s') => (.error e, s') := by
  show (ExceptT.bindCont f (perform a s).1).run (perform a s).2 = _
  rcases perform a s with ⟨_ | _, _⟩ <;> rfl

/-- A handler is performed if the operation has failed, in the state that it has left. -/
theorem perform_tryCatch (a : ExceptT Fault (StateM σ) α) (f : Fault → ExceptT Fault (StateM σ) α)
    (s : σ) :
    perform (tryCatch a f) s =
      match perform a s with
      | (.ok x, s') => (.ok x, s')
      | (.error e, s') => perform (f e) s' := by
  have hrun : a.run.run s = perform a s := rfl
  rw [perform, ExceptT.run_tryCatch, StateT.run_bind, hrun]
  rcases perform a s with ⟨_ | _, _⟩ <;> rfl

theorem perform_discard (a : ExceptT Fault (StateM σ) α) (s : σ) :
    perform (discard a) s = ((perform a s).1.map fun _ => ⟨⟩, (perform a s).2) := by
  have hdiscard : discard a = a >>= fun _ => pure ⟨⟩ := by
    rw [← map_eq_pure_bind, Functor.discard, map_const]
    rfl
  rw [hdiscard, perform_bind]
  rcases perform a s with ⟨_ | _, _⟩ <;> rfl

/-! ## Success -/

/-- A chain of operations succeeds when every link of it does. -/
theorem perform_bind_eq_ok_iff {a : ExceptT Fault (StateM σ) α}
    {f : α → ExceptT Fault (StateM σ) β} {s s' : σ} {y : β} :
    perform (a >>= f) s = (.ok y, s') ↔
      ∃ x t, perform a s = (.ok x, t) ∧ perform (f x) t = (.ok y, s') := by
  rw [perform_bind]
  rcases perform a s with ⟨_ | x, t⟩ <;> simp

end

/-! ## Events -/

namespace Action

variable {α : Type}

/-- Showing one event after the other adds them to the trace, and does nothing else. -/
theorem perform_emitAll (event : α → Event) (xs : List α) (w : World) :
    perform (xs.forM fun x => emit (event x)) w =
      (.ok ⟨⟩, { w with trace := w.trace ++ xs.map event }) := by
  induction xs generalizing w with
  | nil => simp
  | cons x rest ih =>
    have hemit : perform (emit (event x)) w =
        (.ok ⟨⟩, { w with trace := w.trace ++ [event x] }) := rfl
    rw [List.forM_eq_forM, List.forM_cons, perform_bind, hemit, ← List.forM_eq_forM]
    dsimp only
    rw [ih, List.map_cons, List.append_assoc, List.singleton_append]

/-- A notice that can be shown is noted. -/
theorem perform_note (n : Notice) (h : n.isPrintable = true) (w : World) :
    perform (note n) w = (.ok ⟨⟩, { w with trace := w.trace ++ [.noticed n] }) := by
  rw [note, if_pos h]
  rfl

/-- One that cannot be shown is a fault, and leaves no trace. -/
theorem perform_note_of_not_isPrintable (n : Notice) (h : n.isPrintable = false) (w : World) :
    perform (note n) w = (.error .unprintable, w) := by
  rw [note, h]
  rfl

/-- Logging notices adds them to the trace, up to the first that cannot be shown, and does nothing else. -/
theorem perform_notes (notices : List Notice) (w : World) :
    perform (notices.forM note) w =
      (if notices.all Notice.isPrintable then .ok ⟨⟩ else .error .unprintable,
        { w with trace := w.trace ++ (notices.takeWhile Notice.isPrintable).map .noticed }) := by
  induction notices generalizing w with
  | nil => simp
  | cons n rest ih =>
    rw [List.forM_eq_forM, List.forM_cons, perform_bind, ← List.forM_eq_forM]
    -- nothing is noted behind the first notice that cannot be shown
    cases h : n.isPrintable with
    | true =>
      rw [perform_note n h]
      dsimp only
      rw [ih, List.all_cons, h, Bool.true_and, List.takeWhile_cons_of_pos h, List.map_cons,
        List.append_assoc, List.singleton_append]
    | false =>
      rw [perform_note_of_not_isPrintable n h, List.all_cons, h,
        List.takeWhile_cons_of_neg (by simp [h])]
      simp

end Action

/-! ## Stages -/

namespace Run

/-- The run in its next state. -/
def moved (r : Run) (target : RunState) : Run :=
  { r with past := r.past ++ [r.state], state := target }

@[simp] theorem history_moved (r : Run) (target : RunState) :
    (r.moved target).history = r.history ++ [target] := rfl

/-- The history ends in the present state. -/
theorem getLast?_history (r : Run) : r.history.getLast? = some r.state := by
  simp [history]

/-- A run moves on if the table allows it, and notes the state that it was in. -/
theorem advance_eq_ok_iff {r r' : Run} {target : RunState} :
    r.advance target = .ok r' ↔
      target ∈ r.state.next ∧ { r with past := r.past ++ [r.state], state := target } = r' := by
  rw [advance]
  split
  · next h => simp [List.contains_iff_mem.mp h]
  · next h =>
    have hnext : target ∉ r.state.next := fun hnext => h (List.contains_iff_mem.mpr hnext)
    simp [hnext]

/-- A run records a fault by failing, as long as it can. -/
theorem fail_of_mem {r : Run} {f : Fault} (h : .failed ∈ r.state.next) : (r.fail f).2 = .ok ⟨⟩ := by
  have hadvance : Run.advance { r with error := some f } .failed = .ok _ :=
    advance_eq_ok_iff.mpr ⟨h, rfl⟩
  rw [fail, hadvance]

/-- The run after a stage that records its faults, if it can fail. -/
def recorded {α : Type} (r : Run) : Except Fault α → Run
  | .ok _ => r
  | .error f => if f.isForeseen then (r.fail f).1 else r

end Run

namespace Stage

variable {α : Type}

/-- An action of a stage leaves the run alone. -/
theorem perform_act (a : Action α) (p : Pipeline) :
    perform (act a) p = ((perform a p.world).1, { p with world := (perform a p.world).2 }) := by
  rw [act, perform_bind, perform_get]
  dsimp only
  rw [← perform, perform_bind, perform_set]
  dsimp only
  rcases perform a p.world with ⟨_ | _, _⟩ <;> rfl

/-- An action succeeds as a stage when it succeeds in the world of the run. -/
theorem perform_act_eq_ok_iff {a : Action α} {p p' : Pipeline} {x : α} :
    perform (act a) p = (.ok x, p') ↔
      ∃ w, perform a p.world = (.ok x, w) ∧ { p with world := w } = p' := by
  rw [perform_act]
  rcases perform a p.world with ⟨_ | _, _⟩ <;> simp [and_assoc]

/-- Moving on leaves the world alone. -/
theorem perform_advance (target : RunState) (p : Pipeline) :
    perform (advance target) p =
      match p.run.advance target with
      | .ok run => (.ok ⟨⟩, { p with run })
      | .error f => (.error f, p) := by
  rw [advance, perform_bind, perform_get]
  dsimp only
  cases p.run.advance target <;> rfl

/-- The run moves to a state that its own allows. -/
theorem perform_advance_moved {target : RunState} {p : Pipeline} (h : target ∈ p.run.state.next) :
    perform (advance target) p = (.ok ⟨⟩, { p with run := p.run.moved target }) := by
  rw [perform_advance, Run.advance_eq_ok_iff.mpr ⟨h, rfl⟩, Run.moved]

/-- A step succeeds when the present state of the run allows it. -/
theorem perform_advance_eq_ok_iff {target : RunState} {p p' : Pipeline} :
    perform (advance target) p = (.ok ⟨⟩, p') ↔
      ∃ r, p.run.advance target = .ok r ∧ { p with run := r } = p' := by
  rw [perform_advance]
  cases p.run.advance target <;> simp

/-- A run that may fail does so. -/
theorem perform_fail {f : Fault} {p : Pipeline} (h : .failed ∈ p.run.state.next) :
    perform (fail f) p = (.ok ⟨⟩, { p with run := (p.run.fail f).1 }) := by
  rw [fail, perform_bind, perform_get]
  dsimp only
  rw [perform_bind, perform_set]
  dsimp only
  rw [Run.fail_of_mem h]
  rfl

/-- **A stage that records the faults of an action** has the outcome and the effect of the action, as long
as the run can fail. -/
theorem perform_recording_act (a : Action α) {p : Pipeline} (h : .failed ∈ p.run.state.next) :
    perform (recording (act a)) p =
      ((perform a p.world).1,
        { world := (perform a p.world).2, run := p.run.recorded (perform a p.world).1 }) := by
  rw [recording, perform_tryCatch, perform_act]
  rcases perform a p.world with ⟨f | x, w⟩
  · dsimp only
    rw [Run.recorded]
    -- only a foreseen fault is recorded
    split
    · have hfail : perform (fail f) { world := w, run := p.run } = _ := perform_fail h
      rw [perform_bind, hfail]
      rfl
    · rfl
  · rfl

/-- **A step with an action whose faults are recorded**, before the rest of an operation. -/
theorem perform_attempt {β : Type} {first : RunState} {p : Pipeline} (a : Action α) (k : α → Stage β)
    (hfirst : first ∈ p.run.state.next) (hfailed : .failed ∈ first.next) :
    perform (advance first >>= fun _ => recording (act a) >>= k) p =
      match perform a p.world with
      | (.ok x, w) => perform (k x) { world := w, run := p.run.moved first }
      | (.error f, w) =>
        (.error f, { world := w, run := (p.run.moved first).recorded (.error f : Except Fault α) }) := by
  have hrecording := perform_recording_act a (p := { p with run := p.run.moved first }) hfailed
  rw [perform_bind, perform_advance_moved hfirst]
  dsimp only
  rw [perform_bind, hrecording]
  dsimp only
  rcases perform a p.world with ⟨f | x, w⟩ <;> rfl

/-- Recording faults makes no difference to a stage that succeeds. -/
theorem perform_recording_eq_ok_iff {body : Stage α} {p p' : Pipeline} {x : α} :
    perform (recording body) p = (.ok x, p') ↔ perform body p = (.ok x, p') := by
  rw [recording, perform_tryCatch]
  rcases perform body p with ⟨f | y, q⟩
  · -- after a fault the stage fails, whether or not the run can
    simp only [Prod.mk.injEq, reduceCtorEq, false_and, iff_false]
    split
    · simp only [perform_bind_eq_ok_iff]
      rintro ⟨_, _, -, h⟩
      simp at h
    · simp
  · rfl

end Stage

end SchemaGraft
