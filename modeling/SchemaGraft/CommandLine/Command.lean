import SchemaGraft.CommandLine.Options

/-!
# Commands

What a user can ask for on the command line.
-/

namespace SchemaGraft

namespace CommandLine

inductive Command where
  -- patches a schema file, or only reports on it
  | patch (path : Text) (table : Option Text) (isStrict isCheck : Bool)
  | extract (config : Option Text)
  | generate (config generator : Option Text) (wait : Option Bool)
  | run (config : Option Text)
  | rules (table : Option Text)
deriving DecidableEq, Repr

inductive Request where
  | carryOut (command : Command)
  | help
deriving DecidableEq, Repr

def helpOption : Text :=
  "--help"

/-- The options of commands that take a patch table, and some without a value. -/
def tableOptions (flags : List Text) : OptionSet :=
  ⟨["--table"], [(.scalar 't', "--table")], helpOption :: flags⟩

/-- The options of commands that take a configuration, and others with and without a value. -/
def configOptions (valued flags : List Text) : OptionSet :=
  ⟨"--config" :: valued, [(.scalar 'c', "--config")], helpOption :: flags⟩

def options : List (Text × OptionSet) :=
  [("patch", tableOptions ["--strict", "--no-strict", "--check"]),
    ("extract", configOptions [] []),
    ("generate", configOptions ["--generator"] ["--wait-format", "--no-wait-format"]),
    ("run", configOptions [] []),
    ("rules", tableOptions [])]

/-- The command of a given name with sorted words; there must be as many arguments as it takes. -/
def commandOf (name : Text) (w : Words) : Option Command :=
  let table := w.value? "--table"
  let config := w.value? "--config"
  match w.arguments with
  | [path] =>
    if name = "patch" then
      some (.patch path table ((w.choice? "--strict" "--no-strict").getD true) (w.has "--check"))
    else
      none
  | [] =>
    if name = "extract" then some (.extract config)
    else if name = "generate" then
      some (.generate config (w.value? "--generator") (w.choice? "--wait-format" "--no-wait-format"))
    else if name = "run" then some (.run config)
    else if name = "rules" then some (.rules table)
    else none
  | _ => none

/-- What the words of a command line ask for, unless they are misused. -/
def request (words : List Text) : Option Request := do
  let front ← Words.sort { flags := [helpOption] } false words
  if front.has helpOption then
    return .help
  match front.arguments with
  | [] => none
  | name :: rest =>
    let w ← Words.sort (← options.lookup name) true rest
    if w.has helpOption then
      return .help
    return .carryOut (← commandOf name w)

end CommandLine

end SchemaGraft
