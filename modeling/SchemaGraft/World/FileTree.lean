import SchemaGraft.Text.Utf8
import SchemaGraft.World.Path

/-!
# File trees

The files and directories that the library reads and writes.

## Architecture

- `FileTree` lists every file and directory by its location, and says which directory is the current one
  and what may be done at which location.
- `FileTree.find` follows a path; what goes wrong on the way is a `SystemError`.
- `FileTree.read`, `write`, `makeDirectory` and their like are the operations.  One that fails leaves the
  tree as it was, with two exceptions: `write` leaves as much of the content as there was room for, and
  `makeDirectories` keeps the parents it has made.
-/

namespace SchemaGraft

/-- The names on the way from the root directory. -/
abbrev Location := List Text

inductive Entry where
  | file (content : Bytes)
  | directory
deriving DecidableEq, Repr

/-- What may be done at a location: with the file, whether it is there or has to be made, or with the
directory. -/
structure Access where
  canRead : Bool := true
  canWrite : Bool := true
  -- may paths lead through the directory?
  canEnter : Bool := true
  -- the number of bytes that there is room for, if the medium is nearly full
  room : Option Nat := none
deriving DecidableEq, Repr

/-- Is there room for a content? -/
def Access.hasRoom (a : Access) (content : Bytes) : Bool :=
  a.room.all (content.length ≤ ·)

/-- Files and directories, and the current directory. -/
structure FileTree where
  -- the current directory
  home : Location
  -- everything but the root directory
  entries : List (Location × Entry) := []
  -- what may be done at a location
  access : Location → Access := fun _ => {}

/-! ## Errors -/

inductive SystemError where
  | notFound
  | denied
  | exists
  | notDirectory
  | isDirectory
  | noSpace
  | nameTooLong
deriving DecidableEq, Repr

namespace SystemError

def number : SystemError → Nat
  | .notFound => 2
  | .denied => 13
  | .exists => 17
  | .notDirectory => 20
  | .isDirectory => 21
  | .noSpace => 28
  | .nameTooLong => 36

def message : SystemError → String
  | .notFound => "No such file or directory"
  | .denied => "Permission denied"
  | .exists => "File exists"
  | .notDirectory => "Not a directory"
  | .isDirectory => "Is a directory"
  | .noSpace => "No space left on device"
  | .nameTooLong => "File name too long"

/-- Does the error name the path?  One that comes up while an open file is written does not. -/
def namesPath : SystemError → Bool
  | .noSpace => false
  | _ => true

end SystemError

inductive AccessFault where
  | system (error : SystemError) (path : Text)
  | nullByte
  | unencodable (fault : Utf8.EncodeFault)
deriving DecidableEq, Repr

/-- Where a path leads: to something, or to a free name in a directory. -/
inductive Place where
  -- to something that is there
  | taken (location : Location) (entry : Entry)
  -- to a name that a directory does not hold
  | free (location : Location)
deriving DecidableEq, Repr

namespace FileTree

/-! ## Following paths -/

def maxName : Nat := 255

/-- The number of bytes that a path must stay below. -/
def maxPath : Nat := 4096

/-- What stands at a location; the root directory is always there. -/
def entry? (t : FileTree) (l : Location) : Option Entry :=
  if l.isEmpty then some .directory else t.entries.lookup l

/-- The number of bytes of a name that can be encoded. -/
def byteCount (t : Text) : Nat :=
  match Utf8.encodePath t with
  | .ok bs => bs.length
  | .error _ => 0

def walk (t : FileTree) (here : Location) : List Text → Except SystemError Place
  | [] => .ok (.taken here .directory)
  | name :: rest =>
    if !(t.access here).canEnter then
      .error .denied
    else if name = ".." then
      walk t here.dropLast rest
    else if maxName < byteCount name then
      .error .nameTooLong
    else
      match t.entry? (here ++ [name]) with
      | some .directory => walk t (here ++ [name]) rest
      | some (.file content) =>
        if rest.isEmpty then .ok (.taken (here ++ [name]) (.file content)) else .error .notDirectory
      | none => if rest.isEmpty then .ok (.free (here ++ [name])) else .error .notFound

def start (t : FileTree) (p : Path) : Location :=
  match p.root with
  | .relative => t.home
  | _ => []

/-- Where a path leads.  Names are told apart by their code points, also where two of them have the same
bytes because one spells a character by escaped bytes. -/
def find (t : FileTree) (p : Path) : Except AccessFault Place :=
  match Utf8.encodePath p.text with
  | .error f => .error (.unencodable f)
  | .ok bs =>
    if bs.contains 0 then .error .nullByte
    else if maxPath ≤ bs.length then .error (.system .nameTooLong p.text)
    else
      match t.walk (t.start p) p.parts with
      | .ok place => .ok place
      | .error e => .error (.system e p.text)

/-- Does the path lead to something of the given kind?  Paths that lead nowhere do not; only a name that
is too long, and a directory on the way that lets no one through, are refused. -/
def holds (t : FileTree) (p : Path) (kind : Entry → Bool) : Except AccessFault Bool :=
  match t.find p with
  | .ok (.taken _ e) => .ok (kind e)
  | .ok (.free _) => .ok false
  | .error (.system .notFound _) | .error (.system .notDirectory _) => .ok false
  | .error (.system e text) => .error (.system e text)
  | .error .nullByte | .error (.unencodable _) => .ok false

def exists? (t : FileTree) (p : Path) : Except AccessFault Bool :=
  t.holds p fun _ => true

def isFile? (t : FileTree) (p : Path) : Except AccessFault Bool :=
  t.holds p fun
    | .file _ => true
    | .directory => false

def isDirectory? (t : FileTree) (p : Path) : Except AccessFault Bool :=
  t.holds p (· = .directory)

/-! ## Operations -/

/-- Puts something at a location, in the place of what was there. -/
def put (t : FileTree) (l : Location) (e : Entry) : FileTree :=
  { t with
    entries :=
      if (t.entries.lookup l).isSome then t.entries.map fun m => if m.1 = l then (l, e) else m
      else t.entries ++ [(l, e)] }

def read (t : FileTree) (p : Path) : Except AccessFault Bytes :=
  match t.find p with
  | .ok (.taken l (.file content)) =>
    if (t.access l).canRead then .ok content else .error (.system .denied p.text)
  | .ok (.taken _ .directory) => .error (.system .isDirectory p.text)
  | .ok (.free _) => .error (.system .notFound p.text)
  | .error f => .error f

/-- Writes the file at a location, to which a path has led.  The file is emptied first, and what there is
room for is written. -/
def fillFile (t : FileTree) (p : Path) (l : Location) (content : Bytes) :
    FileTree × Except AccessFault Unit :=
  let access := t.access l
  if !access.canWrite then
    (t, .error (.system .denied p.text))
  else if access.hasRoom content then
    (t.put l (.file content), .ok ())
  else
    (t.put l (.file (content.take (access.room.getD 0))), .error (.system .noSpace p.text))

/-- Writes a file, which may be new or replace one. -/
def write (t : FileTree) (p : Path) (content : Bytes) : FileTree × Except AccessFault Unit :=
  match t.find p with
  | .ok (.taken l (.file _)) | .ok (.free l) => t.fillFile p l content
  | .ok (.taken _ .directory) => (t, .error (.system .isDirectory p.text))
  | .error f => (t, .error f)

/-- Makes a file without content, unless something is there already. -/
def touch (t : FileTree) (p : Path) : FileTree × Except AccessFault Unit :=
  match t.find p with
  | .ok (.taken ..) => (t, .ok ())
  | .ok (.free l) => t.fillFile p l []
  | .error f => (t, .error f)

def makeDirectory (t : FileTree) (p : Path) : Except AccessFault FileTree :=
  match t.find p with
  | .ok (.free l) => .ok (t.put l .directory)
  | .ok (.taken ..) => .error (.system .exists p.text)
  | .error f => .error f

/-- The failure to make a directory does not count where there is one. -/
def unlessDirectory (t : FileTree) (p : Path) (f : AccessFault) : Except AccessFault Unit :=
  match f with
  | .system .. => do
    if ← t.isDirectory? p then return () else throw f
  | _ => throw f

/-- Makes a directory unless it is there, and before it the parents that are missing.  The names of its
path come in reverse order. -/
def makeWithParents (t : FileTree) (root : PathRoot) (reversed : List Text) :
    FileTree × Except AccessFault Unit :=
  let p : Path := ⟨root, reversed.reverse⟩
  match t.makeDirectory p with
  | .ok made => (made, .ok ())
  | .error (.system .notFound text) =>
    match reversed with
    | [] => (t, .error (.system .notFound text))
    | _ :: up =>
      match makeWithParents t root up with
      | (made, .error f) => (made, .error f)
      | (made, .ok ()) =>
        match made.makeDirectory p with
        | .ok made => (made, .ok ())
        | .error (.system .notFound text) => (made, .error (.system .notFound text))
        | .error f => (made, made.unlessDirectory p f)
  | .error f => (t, t.unlessDirectory p f)
termination_by structural reversed

/-- Makes a directory unless it is there, and before it the parents that are missing. -/
def makeDirectories (t : FileTree) (p : Path) : FileTree × Except AccessFault Unit :=
  t.makeWithParents p.root p.parts.reverse

/-- Takes away a location and everything below it. -/
def remove (t : FileTree) (l : Location) : FileTree :=
  { t with entries := t.entries.filter fun m => !l.isPrefixOf m.1 }

/-- Everything below a location, by the rest of its way. -/
def below (t : FileTree) (l : Location) : List (Location × Entry) :=
  t.entries.filterMap fun m =>
    if l.isPrefixOf m.1 ∧ m.1 ≠ l then some (m.1.drop l.length, m.2) else none

/-- Puts something at a path, with all directories on the way; used to set a tree up. -/
def install (t : FileTree) (p : Path) (e : Entry) : FileTree :=
  let l := t.start p ++ p.parts
  let parents := (List.range l.length).map fun n => l.take n
  (parents.foldl (fun t l => if Option.isSome <| t.entry? l then t else t.put l .directory) t).put l e

end FileTree

end SchemaGraft
