import SchemaGraft.Number.Reading
import SchemaGraft.StandIn.Arguments
import SchemaGraft.World.Action

/-!
# The stand-in extractor

A tool that stands in for the extractor: it copies a prepared schema into the directory that it is given.
-/

namespace SchemaGraft

namespace StandIn

structure Surroundings where
  environment : List (Text × Text) := []
  -- the prepared schema of the extractor
  prepared : Path

/-- The exit status for arguments that cannot be read. -/
def wrongUsage : Int := 2

/-- The exit status for anything else that goes wrong. -/
def breakdown : Int := 1

/-- A line of text as bytes; a line that cannot be encoded is lost. -/
def line (t : Text) : Option Bytes :=
  match Utf8.encode (t ++ "\n") with
  | .ok bs => some bs
  | .error _ => none

/-- The exit status that an environment variable asks for; zero without one. -/
def askedStatus (s : Surroundings) (name : Text) : Option Int :=
  match s.environment.lookup name with
  | none => some 0
  | some t =>
    match Numeral.integer 10 t with
    | .ok n => some n
    | .error _ => none

def areSameFile (t : FileTree) (p q : Path) : Bool :=
  match t.find p, t.find q with
  | .ok (.taken l _), .ok (.taken m _) => l == m
  | _, _ => false

/-- Copies the prepared schema into a directory; says where it is then. -/
def copyPrepared (s : Surroundings) (t : FileTree) (directory : Path) : FileTree × Option Path :=
  match t.makeDirectories directory with
  | (t, .error _) => (t, none)
  | (t, .ok ()) =>
    let target := directory ++ Path.ofText "phoenix.json"
    if areSameFile t s.prepared target then
      (t, none)
    else
      match t.read s.prepared with
      | .error _ => (t, none)
      | .ok content =>
        match t.write target content with
        | (t, .ok ()) => (t, some target)
        | (t, .error _) => (t, none)

/-- What the stand-in extractor does with the given arguments. -/
def extractor (s : Surroundings) (words : List Text) (t : FileTree) : Execution :=
  match Arguments.read ["--out-dir", "--crate-root"] 1 words with
  | .wrong => { files := t, status := wrongUsage }
  | .help => { files := t }
  | .proper a =>
    match line ("Analyzing crate at " ++ (a.option? "--crate-root").getD []) with
    | none => { files := t, status := breakdown }
    | some start =>
      let warning := line "warning: skipping unannotated instruction variants"
      let output : Execution :=
        { files := t, status := breakdown, output := [start], error := warning.toList }
      match askedStatus s "FAKE_SHANK_EXIT" with
      | none => output
      | some 0 =>
        match copyPrepared s t (Path.ofText ((a.option? "--out-dir").getD [])) with
        | (t, none) => { output with files := t }
        | (t, some target) =>
          match line ("Wrote " ++ target.text) with
          | none => { output with files := t }
          | some final => { output with files := t, status := 0, output := [start, final] }
      | some n => { output with status := n }

end StandIn

end SchemaGraft
