import SchemaGraft.StandIn.Extractor
import SchemaGraft.Text.Newline

/-!
# The stand-in generator

A tool that stands in for a generator of clients: it writes one line for each instruction of a schema.
-/

namespace SchemaGraft

namespace StandIn

/-- The things that a value lists: the items of a list, the names of an object, the characters of a
text. -/
def listed : Json → Option (List Json)
  | .list items => some items
  | .object ms => some (ms.map fun m => .text m.1)
  | .text t => some (t.map fun c => .text [c])
  | _ => none

def memberOf (name : Text) : Json → Option Json
  | .object ms => Json.lookup name ms
  | _ => none

/-- A value within a line: a text as it is, anything else as messages show it. -/
def shown : Json → Text
  | .text t => t
  | v => (Value.ofJson v).display

/-- The names of the arguments of an instruction. -/
def argumentNames (ix : Json) : Option (List Text) := do
  let ms ← match ix with
    | .object ms => some ms
    | _ => none
  let args ← listed ((Json.lookup "args" ms).getD (.list []))
  args.mapM fun a => (memberOf "name" a).map shown

def functionLine (ix : Json) : Option Text := do
  let names ← argumentNames ix
  let name ← memberOf "name" ix
  return "export function " ++ shown name ++ "(" ++ Text.join ", " names ++ ") \x7b\x7d"

/-- The text for a schema: a line for each instruction. -/
def clientText (schema : Json) : Option Text := do
  let ixs ← listed (← memberOf "instructions" schema)
  let lines ← ixs.mapM functionLine
  return Text.join "\n" lines ++ "\n"

def readJson? (t : FileTree) (p : Path) : Option Json :=
  match t.read p with
  | .error _ => none
  | .ok content =>
    match Utf8.decode content with
    | .error _ => none
    | .ok cs =>
      match Json.read (unifyNewlines cs) with
      | .ok v => some v
      | .error _ => none

/-- Writes a text into a new file of a directory; says whether all went well.  The file is there, without
content, even when the text cannot be encoded. -/
def writeClient (t : FileTree) (directory : Path) (text : Text) : FileTree × Bool :=
  match t.makeDirectories directory with
  | (t, .error _) => (t, false)
  | (t, .ok ()) =>
    let target := directory ++ Path.ofText "instructions.ts"
    let (content, isEncoded) :=
      match Utf8.encode text with
      | .ok bs => (bs, true)
      | .error _ => ([], false)
    match t.write target content with
    | (t, .ok ()) => (t, isEncoded)
    | (t, .error _) => (t, false)

/-- What the stand-in generator does with the given arguments. -/
def generator (s : Surroundings) (words : List Text) (t : FileTree) : Execution :=
  match Arguments.read ["--idl", "--out"] 0 words with
  | .wrong => { files := t, status := wrongUsage }
  | .help => { files := t }
  | .proper a =>
    match askedStatus s "FAKE_GENERATOR_EXIT" with
    | none => { files := t, status := breakdown }
    | some 0 =>
      let schema := readJson? t (Path.ofText ((a.option? "--idl").getD []))
      match schema.bind clientText with
      | none => { files := t, status := breakdown }
      | some text =>
        let (t, isDone) := writeClient t (Path.ofText ((a.option? "--out").getD [])) text
        { files := t, status := if isDone then 0 else breakdown }
    | some n => { files := t, status := n }

end StandIn

end SchemaGraft
