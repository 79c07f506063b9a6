import SchemaGraft.Proofs.World.Performing

/-!
# What Operations Leave Alone

Most operations leave a part of the state as it is, whether they succeed or fail, and the outcome of many
depends on a part of it only.  Both properties pass from the parts of an operation to the whole.

## Architecture

- **Frames**: `Keeps view a` says that `a` never changes what `view` shows of the state.
- **Failures**: `perform_bind_eq_error_iff` says where an operation in two parts has failed.
- **Outcomes**: `DependsOn view a` says that the outcome of `a` depends on nothing but what `view` shows.
- **Actions**: what is looked up changes nothing.
-/

namespace SchemaGraft

section

variable {σ α β γ δ : Type} {view : σ → γ}

/-! ## Frames -/

/-- The operation never changes what `view` shows of the state. -/
def Keeps (view : σ → γ) (a : ExceptT Fault (StateM σ) α) : Prop :=
  ∀ s, view (perform a s).2 = view s

theorem keeps_pure (x : α) : Keeps view (pure x) :=
  fun _ => rfl

theorem keeps_throw (f : Fault) : Keeps view (throw f : ExceptT Fault (StateM σ) α) :=
  fun _ => rfl

theorem keeps_get : Keeps view (get : ExceptT Fault (StateM σ) σ) :=
  fun _ => rfl

/-- A change keeps what it does not touch. -/
theorem keeps_modify {f : σ → σ} (h : ∀ s, view (f s) = view s) :
    Keeps view (modify f : ExceptT Fault (StateM σ) PUnit) :=
  h

theorem Keeps.eq {a : ExceptT Fault (StateM σ) α} (h : Keeps view a) {s s' : σ}
    {x : Except Fault α} (hs : perform a s = (x, s')) : view s' = view s := by
  have hview := h s
  rwa [hs] at hview

/-- An operation without an effect succeeds or fails, and that is all. -/
theorem Keeps.perform_cases {a : ExceptT Fault (StateM σ) α} (h : Keeps id a) (s : σ) :
    (∃ f, perform a s = (.error f, s)) ∨ ∃ x, perform a s = (.ok x, s) := by
  have hsame := h s
  rcases hs : perform a s with ⟨f | x, s'⟩
  all_goals
    rw [hs] at hsame
    cases hsame
  · exact .inl ⟨f, rfl⟩
  · exact .inr ⟨x, rfl⟩

/-- What leaves the whole state alone leaves every part of it alone. -/
theorem Keeps.part {a : ExceptT Fault (StateM σ) α} (h : Keeps id a) (part : σ → γ) :
    Keeps part a :=
  fun s => congrArg part (h s)

/-- Of two actions in a row each keeps the view. -/
theorem Keeps.bind {a : ExceptT Fault (StateM σ) α} {f : α → ExceptT Fault (StateM σ) β}
    (ha : Keeps view a) (hf : ∀ x, Keeps view (f x)) : Keeps view (a >>= f) := by
  intro s
  rw [perform_bind]
  rcases h : perform a s with ⟨e | x, t⟩
  · exact ha.eq h
  · exact (hf x t).trans (ha.eq h)

/-- What every step of a loop leaves alone, the loop leaves alone. -/
theorem Keeps.mapM {f : α → ExceptT Fault (StateM σ) β} (hf : ∀ x, Keeps view (f x))
    (xs : List α) : Keeps view (xs.mapM f) := by
  induction xs with
  | nil =>
    rw [List.mapM_nil]
    exact keeps_pure _
  | cons x rest ih =>
    rw [List.mapM_cons]
    exact (hf x).bind fun _ => ih.bind fun _ => keeps_pure _

/-! ## Failures -/

/-- An operation in two parts fails in the first or, when that has succeeded, in the second. -/
theorem perform_bind_eq_error_iff {a : ExceptT Fault (StateM σ) α}
    {f : α → ExceptT Fault (StateM σ) β} {s s' : σ} {e : Fault} :
    perform (a >>= f) s = (.error e, s') ↔
      perform a s = (.error e, s') ∨
        ∃ x t, perform a s = (.ok x, t) ∧ perform (f x) t = (.error e, s') := by
  rw [perform_bind]
  rcases perform a s with ⟨_ | x, t⟩ <;> simp

/-! ## Outcomes -/

/-- The outcome depends on nothing but what `view` shows of the state. -/
def DependsOn (view : σ → γ) (a : ExceptT Fault (StateM σ) α) : Prop :=
  ∀ ⦃s s'⦄, view s' = view s → (perform a s').1 = (perform a s).1

theorem dependsOn_pure (x : α) : DependsOn view (pure x : ExceptT Fault (StateM σ) α) :=
  fun _ _ _ => rfl

theorem dependsOn_throw (f : Fault) : DependsOn view (throw f : ExceptT Fault (StateM σ) α) :=
  fun _ _ _ => rfl

/-- What follows an operation without an effect starts in the same state. -/
theorem DependsOn.bind {a : ExceptT Fault (StateM σ) α} {f : α → ExceptT Fault (StateM σ) β}
    (ha : DependsOn view a) (hkeeps : Keeps id a) (hf : ∀ x, DependsOn view (f x)) :
    DependsOn view (a >>= f) := by
  intro s s' h
  have hsame := ha h
  rw [perform_bind, perform_bind]
  rcases hkeeps.perform_cases s with ⟨e, hs⟩ | ⟨x, hs⟩
  · have hs' : perform a s' = (.error e, s') := Prod.ext (by rw [hsame, hs]) (hkeeps s')
    rw [hs, hs']
  · have hs' : perform a s' = (.ok x, s') := Prod.ext (by rw [hsame, hs]) (hkeeps s')
    rw [hs, hs']
    exact hf x h

end

/-! ## Actions -/

namespace Action

variable {α γ : Type}

/-- To look at the files changes nothing. -/
theorem keeps_look (f : FileTree → Except AccessFault α) : Keeps id (look f) := by
  refine keeps_get.bind fun w => ?_
  split
  · exact keeps_pure _
  · exact keeps_throw _

/-- What is seen of the files depends on what decides it. -/
theorem dependsOn_look {view : World → γ} {f : FileTree → Except AccessFault α}
    (h : ∀ w w' : World, view w' = view w → f w'.files = f w.files) : DependsOn view (look f) := by
  intro w w' hview
  rw [look, perform_bind, perform_bind, perform_get, perform_get]
  dsimp only
  rw [h w w' hview]
  cases f w.files <;> rfl

/-- What shows outside leaves alone all that does not look at it. -/
theorem keeps_emit {view : World → γ} {e : Event}
    (h : ∀ w : World, view { w with trace := w.trace ++ [e] } = view w) : Keeps view (emit e) :=
  keeps_modify h

/-- A record keeps any view that does not see it. -/
theorem keeps_note {view : World → γ} {n : Notice}
    (h : ∀ w : World, view { w with trace := w.trace ++ [.noticed n] } = view w) :
    Keeps view (note n) := by
  rw [note]
  split
  · exact keeps_emit h
  · exact keeps_throw _

end Action

end SchemaGraft
