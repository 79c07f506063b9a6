import SchemaGraft.Text.Digits

/-!
# Arguments of the stand-in tools

The stand-in tools take options with one value each, all of which are required, and a number of
arguments besides.  An option may be shortened as long as no other one starts alike, and its value may
follow after an equals sign.
-/

namespace SchemaGraft

namespace StandIn

/-- The arguments of a tool, as they were read. -/
structure Arguments where
  -- the values of the options, in the order in which they were given
  options : List (Text × Text) := []
  others : List Text := []

/-- What reading the arguments of a tool leads to. -/
inductive Usage where
  -- the tool can start
  | proper (arguments : Arguments)
  -- the tool only has to describe itself
  | help
  -- the tool cannot start
  | wrong

inductive Word where
  -- an option, perhaps with its value
  | option (name : Text) (value : Option Text)
  | help
  | unknown
  -- the words after this one are no options
  | separator
  | argument (t : Text)
deriving DecidableEq

namespace Word

def helpOptions : List Text :=
  ["-h", "--help"]

/-- The word for an option of a tool.  A request for help takes no value, but letters may follow its short
form. -/
def ofOption (name : Text) (value : Option Text) : Option Word :=
  if helpOptions.contains name then
    match value with
    | none => some .help
    | some v => if name = "-h" ∧ !v.isEmpty then some .help else none
  else
    some (.option name value)

def isNegativeNumber (t : Text) : Bool :=
  match t.toChars? with
  | some ('-' :: cs) =>
    let fraction := cs.dropWhile Digits.isDecimal
    match fraction with
    | [] => !cs.isEmpty
    | '.' :: digits => !digits.isEmpty && digits.all Digits.isDecimal
    | _ => false
  | _ => false

/-- The options that a word may stand for, with the value that it gives them. -/
def candidates (options : List Text) (t : Text) : List (Text × Option Text) :=
  if t.startsWith "--" then
    let (front, value) := t.cutAt (.scalar '=')
    (options.filter (Text.startsWith · front)).map fun o => (o, value)
  else
    options.filterMap fun o =>
      if o = t.take 2 then some (o, some (t.drop 2)) else if Text.startsWith o t then some (o, none) else none

/-- Reads a word that is no separator; there is no reading when it is a shortened form of several
options. -/
def read (options : List Text) (t : Text) : Option Word :=
  let options := helpOptions ++ options
  let (front, value) := t.cutAt (.scalar '=')
  if !t.startsWith "-" then some (.argument t)
  else if options.contains t then ofOption t none
  else if t = "-" then some (.argument t)
  else if value.isSome && options.contains front then ofOption front value
  else
    match candidates options t with
    | [(name, value)] => ofOption name value
    | _ :: _ => none
    | [] => some (if isNegativeNumber t || t.holds ' ' then .argument t else .unknown)

def readAll (options : List Text) : List Text → Option (List Word)
  | [] => some []
  | t :: rest =>
    if t = "--" then
      some (.separator :: rest.map .argument)
    else do
      let w ← read options t
      return w :: (← readAll options rest)

end Word

namespace Arguments

/-- Goes through the words of a command.  `wanted` counts the arguments that are still to come, `isExact`
says whether nothing was out of place so far, and `isNear` whether an argument has just been read. -/
def collect (a : Arguments) (wanted : Nat) (isExact isNear : Bool) : List Word → Usage
  | [] => if isExact && wanted = 0 then .proper a else .wrong
  | .help :: _ => .help
  | .unknown :: rest => collect a wanted false false rest
  | .separator :: rest => collect a wanted (isExact && (isNear || 0 < wanted)) false rest
  | .argument t :: rest =>
    match wanted with
    | 0 => collect a 0 false false rest
    | wanted + 1 => collect { a with others := a.others ++ [t] } wanted isExact true rest
  | .option name (some v) :: rest =>
    collect { a with options := a.options ++ [(name, v)] } wanted isExact false rest
  | .option name none :: .argument v :: rest =>
    collect { a with options := a.options ++ [(name, v)] } wanted isExact false rest
  | .option _ none :: _ => .wrong

/-- The value of an option; the last one counts. -/
def option? (a : Arguments) (name : Text) : Option Text :=
  a.options.reverse.lookup name

/-- Reads the arguments of a tool with the given required options and the given number of arguments
besides. -/
def read (options : List Text) (wanted : Nat) (words : List Text) : Usage :=
  match Word.readAll options words with
  | none => .wrong
  | some ws =>
    match collect {} wanted true false ws with
    | .proper a => if options.all fun o => (a.option? o).isSome then .proper a else .wrong
    | usage => usage

end Arguments

end StandIn

end SchemaGraft
