import SchemaGraft.Config.Basic
import SchemaGraft.Table.Phoenix
import SchemaGraft.Table.Validation
import SchemaGraft.World.Action
import SchemaGraft.Yaml.Document

/-!
# Loading configurations and patch tables

Both documents are YAML files that hold a mapping; a document that holds nothing counts as an empty
mapping.  Without a path there is a default for each.
-/

namespace SchemaGraft

namespace DocumentKind

def fault (kind : DocumentKind) (p : Path) (f : DocumentFault) : Fault :=
  .pipeline (.document kind p.text f)

def mapping (kind : DocumentKind) (p : Path) (cs : List Char) :
    Except Fault (List (Scalar × Value)) :=
  match Yaml.load cs with
  | .error .malformed => .error (kind.fault p .malformed)
  | .error f => .error (.yaml f)
  | .ok (.object ms) => .ok ms
  | .ok v => if v.isFalsy then .ok [] else .error (kind.fault p .notMapping)

def load (kind : DocumentKind) (p : Path) : Action (List (Scalar × Value)) := do
  let cs ← Action.readText p
  match kind.mapping p cs with
  | .ok ms => return ms
  | .error f => throw f

end DocumentKind

/-- A path that was given; an empty one counts as none. -/
def givenPath? (path : Option Text) : Option Path :=
  match path with
  | none | some [] => none
  | some t => some (Path.ofText t)

namespace Config

/-- The name of the configuration file that is used when no other is given. -/
def defaultName : Text :=
  "idl-pilot.yml"

/-- The configuration that a mapping describes. -/
def ofMembers (ms : List (Scalar × Value)) : Checked Config :=
  check (.object ms)

def hasTextKeys (ms : List (Scalar × Value)) : Bool :=
  ms.all fun m =>
    match m.1 with
    | .text _ => true
    | _ => false

def loadFrom (p : Path) : Action Config := do
  let ms ← DocumentKind.config.load p
  if hasTextKeys ms then
    match ofMembers ms with
    | .ok c => return c
    | .error issues => throw (DocumentKind.config.fault p (.invalid issues))
  else
    throw .nonTextKey

/-- The configuration in the file at a path.  Without a path it is the one in the current directory, or
the default one when there is none. -/
def load (path : Option Text) : Action Config := do
  match givenPath? path with
  | some p =>
    if ← Action.look (·.exists? p) then loadFrom p
    else throw (DocumentKind.config.fault p .absent)
  | none =>
    let p := Path.mk .absolute (← get).files.home ++ Path.ofText defaultName
    if ← Action.look (·.exists? p) then loadFrom p else return {}

end Config

namespace PatchTable

/-- The patch table in the file at a path; without a path it is the built-in one. -/
def load (path : Option Text) : Action PatchTable := do
  match givenPath? path with
  | none => return phoenix
  | some p =>
    if ← Action.look (·.exists? p) then
      let ms ← DocumentKind.table.load p
      match ofValue (.object ms) with
      | .ok t => return t
      | .error (.ambiguous a) => throw (.pipeline (.ambiguousRule a))
      | .error (.invalid issues) => throw (DocumentKind.table.fault p (.invalid issues))
    else
      throw (DocumentKind.table.fault p .absent)

end PatchTable

end SchemaGraft
