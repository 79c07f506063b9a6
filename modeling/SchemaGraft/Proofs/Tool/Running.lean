import SchemaGraft.Extraction
import SchemaGraft.Proofs.World.Frame

/-!
# Tools That Were Run

What running a tool does to the files and what it shows outside, for every behaviour of the tool.

## Architecture

- **Starting**: `Action.perform_launch`; the files are those that the tool leaves, if it has started.
- **Running**: `Tool.perform_run`.
- **Extracting**: `Extraction.perform_extract`, which fails unless the tool reports success.
-/

namespace SchemaGraft

variable {host : Host} {argv : List Text}

/-! ## Starting -/

/-- The files after a tool was asked for. -/
def Host.filesAfter (host : Host) (argv : List Text) (t : FileTree) : FileTree :=
  match host.launch argv t with
  | .ok e => e.files
  | .error _ => t

/-- The event of asking for a tool. -/
def Host.starting (host : Host) (argv : List Text) (t : FileTree) : Event :=
  .started argv (Action.temporaryFiles host t)

theorem Action.perform_launch (host : Host) (argv : List Text) (w : World) :
    perform (launch host argv) w =
      (host.launch argv w.files,
        { files := host.filesAfter argv w.files
          trace := w.trace ++ [host.starting argv w.files] }) := by
  have hemit (e : Event) (w : World) :
      perform (emit e) w = (.ok ⟨⟩, { w with trace := w.trace ++ [e] }) := rfl
  rw [launch, perform_bind, perform_get]
  dsimp only
  rw [perform_bind, hemit]
  dsimp only
  rw [perform_bind, perform_get, Host.filesAfter, Host.starting]
  dsimp only
  -- the start is recorded in any case; only a command that was started leaves other files
  cases host.launch argv w.files with
  | ok e => rfl
  | error f => rfl

/-! ## Running -/

/-- What is passed on of what a tool writes. -/
def Execution.received (e : Execution) : List Event :=
  (ToolStream.pump e.output).map (.received .output) ++
    (ToolStream.pump e.error).map (.received .error)

theorem ToolStream.perform_forward (stream : ToolStream) (portions : List Bytes) (w : World) :
    perform (stream.forward portions) w =
      (.ok ⟨⟩, { w with trace := w.trace ++ (pump portions).map (.received stream) }) :=
  Action.perform_emitAll (.received stream) (pump portions) w

/-- **Running a tool** fails when the tool does not start, and otherwise gives its exit status, whatever it
is; the files are those that the tool leaves. -/
theorem Tool.perform_run (host : Host) (argv : List Text) (tool : Text) (hint : Option Text)
    (w : World) :
    perform (run host argv tool hint) w =
      match host.launch argv w.files with
      | .ok e =>
        (.ok e.status,
          { files := e.files, trace := w.trace ++ host.starting argv w.files :: e.received })
      | .error f =>
        (.error (startFault tool hint f),
          { w with trace := w.trace ++ [host.starting argv w.files] }) := by
  rw [run, perform_bind, perform_tryCatch, Action.perform_launch, Host.filesAfter]
  -- what the two streams hand over is recorded one after the other
  cases host.launch argv w.files with
  | error f => rfl
  | ok e =>
    dsimp only
    rw [perform_bind, ToolStream.perform_forward]
    dsimp only
    rw [perform_bind, ToolStream.perform_forward]
    dsimp only
    rw [perform_pure, Execution.received]
    simp

/-! ## Extracting -/

namespace Extraction

/-- **Extracting** fails unless the extractor starts and reports success; the files are those that the
extractor leaves. -/
theorem perform_extract (host : Host) (c : Config) (w : World) :
    perform (extract host c) w =
      match host.launch (command c) w.files with
      | .ok e =>
        (if e.status = 0 then .ok ⟨⟩ else .error (.pipeline (.toolFailed c.extractor e.status)),
          { files := e.files
            trace := w.trace ++ .noticed (.extracting (command c)) ::
              host.starting (command c) w.files :: e.received })
      | .error f =>
        (.error (Tool.startFault c.extractor (some hint) f),
          { w with trace := w.trace ++
              [.noticed (.extracting (command c)), host.starting (command c) w.files] }) := by
  rw [extract, perform_bind, Action.perform_note (.extracting _) rfl]
  dsimp only
  rw [perform_bind, Tool.perform_run]
  dsimp only
  cases host.launch (command c) w.files with
  | error f => simp
  | ok e =>
    -- a status other than zero is a fault, but the files are those that the extractor left
    by_cases hstatus : e.status = 0
    · simp [hstatus]
    · simp [hstatus]

end Extraction

end SchemaGraft
