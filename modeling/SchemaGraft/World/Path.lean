import SchemaGraft.Text.Codepoint

/-!
# Paths

Paths of files and directories, in the form in which they are shown and joined: empty parts and parts
that stand for the directory itself are dropped, parts that lead to the parent are kept.
-/

namespace SchemaGraft

inductive PathRoot where
  -- in the current directory
  | relative
  -- in the root directory
  | absolute
  -- in the root directory, written with two slashes, which are kept apart from one
  | doubled
deriving DecidableEq, Repr

/-- A path: its start and the names on its way.  No name is empty, holds a slash, or is a single dot. -/
structure Path where
  -- where the path starts
  root : PathRoot
  -- the names on the way
  parts : List Text
deriving DecidableEq, Repr

namespace Path

def slash : Codepoint :=
  .scalar '/'

/-- The start of a written path, by the number of its slashes; three and more count as one. -/
def rootOf (t : Text) : PathRoot :=
  match (t.takeWhile (· = slash)).length with
  | 0 => .relative
  | 2 => .doubled
  | _ => .absolute

def ofText (t : Text) : Path where
  root := rootOf t
  parts := (t.splitOn slash).filter fun part => !part.isEmpty && part ≠ Text.ofString "."

def rootText : PathRoot → Text
  | .relative => []
  | .absolute => [slash]
  | .doubled => [slash, slash]

/-- The written form of a path; the current directory is a dot. -/
def text (p : Path) : Text :=
  let t := rootText p.root ++ Text.join [slash] p.parts
  if t.isEmpty then "." else t

/-- The path that `q` denotes seen from `p`; an absolute path denotes the same from everywhere. -/
def append (p q : Path) : Path :=
  match q.root with
  | .relative => { p with parts := p.parts ++ q.parts }
  | _ => q

instance : Append Path := ⟨append⟩

/-- The path with its last name left out; a path without names stays as it is. -/
def parent (p : Path) : Path :=
  { p with parts := p.parts.dropLast }

end Path

end SchemaGraft
