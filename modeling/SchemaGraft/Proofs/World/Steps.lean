import SchemaGraft.Proofs.Tool.Running

/-!
# Steps Outside

The tools that are asked for and the calls of generators are the steps that the library takes outside.
Between two steps it only logs, prints and passes on what tools write.

## Architecture

- **Steps**: `World.steps`; extracting takes one step, however the extractor behaves.
- **Surface**: `World.surface` is what a step can see or do: the files, and the steps so far.
-/

namespace SchemaGraft

/-! ## Steps -/

/-- Does something outside the library act on the event? -/
def Event.isStep : Event → Bool
  | .started .. | .generated .. | .called _ => true
  | _ => false

namespace World

/-- The steps so far, in order. -/
def steps (w : World) : List Event :=
  w.trace.filter Event.isStep

/-- Steps are collected from the events, whatever the files are. -/
theorem steps_append (files files' : FileTree) (trace events : List Event) :
    steps { files, trace := trace ++ events } =
      steps { files := files', trace } ++ events.filter Event.isStep :=
  List.filter_append ..

/-- Everything but the order in which notices and output come between the steps. -/
def surface (w : World) : FileTree × List Event :=
  (w.files, w.steps)

end World

namespace Action

/-- An event that is no step changes neither the files nor the steps. -/
theorem keeps_surface_emit {e : Event} (h : e.isStep = false) : Keeps World.surface (emit e) := by
  refine keeps_emit fun w => ?_
  simp [World.surface, World.steps, h]

theorem keeps_surface_note (n : Notice) : Keeps World.surface (note n) :=
  keeps_note fun w => by simp [World.surface, World.steps, Event.isStep]

end Action

/-! ## Tools -/

variable {host : Host} {argv : List Text}

/-- What a process hands over is no step. -/
theorem Execution.filter_received (e : Execution) : e.received.filter Event.isStep = [] := by
  rw [List.filter_eq_nil_iff]
  intro event hevent
  rcases List.mem_append.mp hevent with h | h
  all_goals
    obtain ⟨_, -, rfl⟩ := List.mem_map.mp h
    simp [Event.isStep]

/-- Extracting takes one step, however the extractor behaves. -/
theorem Extraction.steps_perform_extract (host : Host) (c : Config) (w : World) :
    (perform (extract host c) w).2.steps =
      w.steps ++ [host.starting (command c) w.files] := by
  rw [perform_extract]
  cases host.launch (command c) w.files with
  | ok e =>
    dsimp only
    rw [World.steps_append _ w.files, List.filter_cons_of_neg (by simp [Event.isStep]),
      List.filter_cons_of_pos rfl, e.filter_received]
  | error f => rw [World.steps_append _ w.files]; rfl

end SchemaGraft
