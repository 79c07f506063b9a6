import SchemaGraft.Text.Codepoint

/-!
# States of a run

A run goes from the extraction of a schema through its patching to the generation of a client and the
formatting of what was generated.  `RunState.next` is the table of all steps that a run can take.
-/

namespace SchemaGraft

inductive RunState where
  | idle
  | extracting
  | patching
  | patched
  | generating
  | formatting
  | done
  | failed
deriving DecidableEq, Repr

namespace RunState

def all : List RunState :=
  [.idle, .extracting, .patching, .patched, .generating, .formatting, .done, .failed]

def name : RunState → String
  | .idle => "idle"
  | .extracting => "extracting"
  | .patching => "patching"
  | .patched => "patched"
  | .generating => "generating"
  | .formatting => "formatting"
  | .done => "done"
  | .failed => "failed"

def ofName? (t : Text) : Option RunState :=
  all.find? fun s => Text.ofString s.name == t

def next : RunState → List RunState
  | .idle => [.extracting, .patching, .generating]
  | .extracting => [.patching, .failed]
  | .patching => [.patched, .failed]
  | .patched => [.generating]
  | .generating => [.formatting, .done, .failed]
  | .formatting => [.done]
  | .done => []
  | .failed => []

end RunState

end SchemaGraft
