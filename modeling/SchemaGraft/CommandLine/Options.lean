import SchemaGraft.Text.Codepoint

/-!
# Options of the command line

Options may stand before, between and after the arguments of a command; two dashes end them.  A long
option has its value in the next word or after an equals sign, a short one in the rest of its word or in
the next word.  Names must be given in full, and of several values the last one counts.
-/

namespace SchemaGraft

namespace CommandLine

structure OptionSet where
  -- the long options that take a value
  valued : List Text := []
  -- the short options that take a value, each with the long option that it stands for
  short : List (Codepoint × Text) := []
  -- the options that take no value
  flags : List Text := []

structure Words where
  -- the options that were given, with the values of those that take one
  options : List (Text × Option Text) := []
  arguments : List Text := []

namespace Words

def addOption (name : Text) (value : Option Text) (w : Words) : Words :=
  { w with options := (name, value) :: w.options }

def addArgument (t : Text) (w : Words) : Words :=
  { w with arguments := t :: w.arguments }

def has (w : Words) (name : Text) : Bool :=
  w.options.any (·.1 == name)

def value? (w : Words) (name : Text) : Option Text :=
  (w.options.reverse.lookup name).join

/-- The choice between two options that take no value. -/
def choice? (w : Words) (yes no : Text) : Option Bool :=
  (w.options.reverse.find? fun o => o.1 == yes || o.1 == no).map fun o => o.1 == yes

inductive Form where
  | argument
  | endOfOptions
  -- an option that is complete
  | complete (name : Text) (value : Option Text)
  -- an option whose value is the next word
  | open (name : Text)
  -- an option that there is not, or a value for an option that takes none
  | wrong

def shortForm (s : OptionSet) (t : Text) : Form :=
  match t with
  | _ :: c :: rest =>
    match s.short.lookup c with
    | some name => if rest.isEmpty then .open name else .complete name (some rest)
    | none => .wrong
  | _ => .wrong

def form (s : OptionSet) (t : Text) : Form :=
  if t = "--" then .endOfOptions
  else if !t.startsWith "-" || t = "-" then .argument
  else
    let (name, value) := t.cutAt (.scalar '=')
    if s.valued.contains name then
      match value with
      | some v => .complete name (some v)
      | none => .open name
    else if s.flags.contains name then
      if value.isSome then .wrong else .complete name none
    else if t.startsWith "--" then .wrong
    else shortForm s t

/-- Sorts words.  When options may not follow arguments, the first argument ends them. -/
def sort (s : OptionSet) (mayFollow : Bool) : List Text → Option Words
  | [] => some {}
  | t :: rest =>
    match form s t with
    | .endOfOptions => some { arguments := rest }
    | .argument =>
      if mayFollow then (sort s mayFollow rest).map (addArgument t) else some { arguments := t :: rest }
    | .complete name value => (sort s mayFollow rest).map (addOption name value)
    | .open name =>
      match rest with
      | v :: rest => (sort s mayFollow rest).map (addOption name (some v))
      | [] => none
    | .wrong => none

end Words

end CommandLine

end SchemaGraft
