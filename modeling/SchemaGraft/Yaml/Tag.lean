import SchemaGraft.Text.Digits

/-!
# Tags

What kind of value a YAML node is meant to be.  A node without a tag gets one from its form: a plain
scalar is compared with the patterns of truth values, numbers, times and null, and is a text otherwise.
-/

namespace SchemaGraft

namespace Yaml

/-- The kind of value that a node is meant to be. -/
inductive Tag where
  | null
  | bool
  | int
  | float
  | binary
  | timestamp
  | omap
  | pairs
  | set
  | text
  | seq
  | map
  -- the key under which a mapping takes over the entries of others
  | merge
  -- the key for the default value of a mapping
  | default
  -- a tag without meaning here
  | unknown
deriving DecidableEq, Repr

namespace Tag

def isCollection : Tag → Bool
  | .seq | .map | .set | .omap | .pairs => true
  | _ => false

def ofName (name : List Char) : Tag :=
  let tags : List (String × Tag) := [("null", .null), ("bool", .bool), ("int", .int),
    ("float", .float), ("binary", .binary), ("timestamp", .timestamp), ("omap", .omap),
    ("pairs", .pairs), ("set", .set), ("str", .text), ("seq", .seq), ("map", .map),
    ("merge", .merge), ("value", .default)]
  match tags.find? fun t => ("tag:yaml.org,2002:" ++ t.1).toList == name with
  | some t => t.2
  | none => .unknown

/-! ## Patterns of plain scalars -/

def isDigitOrLine (c : Char) : Bool :=
  Digits.isDecimal c || c == '_'

def dropSign (cs : List Char) : List Char :=
  match cs with
  | '-' :: rest | '+' :: rest => rest
  | _ => cs

/-- A number of one or two digits below 60 between a colon and `rest`, repeated, at least once; gives
what follows the last of them. -/
def sexagesimalTail? (cs : List Char) : Option (List Char) :=
  match cs with
  | ':' :: a :: b :: rest =>
    if '0' ≤ a ∧ a ≤ '5' ∧ Digits.isDecimal b then some ((sexagesimalTail? rest).getD rest)
    else if Digits.isDecimal a then some ((sexagesimalTail? (b :: rest)).getD (b :: rest))
    else none
  | [':', a] => if Digits.isDecimal a then some [] else none
  | _ => none

def isInt (cs : List Char) : Bool :=
  match dropSign cs with
  | ['0'] => true
  | '0' :: 'b' :: rest => !rest.isEmpty && rest.all ("01_".toList.contains ·)
  | '0' :: 'x' :: rest => !rest.isEmpty && rest.all fun c => (Digits.hex? c).isSome || c == '_'
  | '0' :: rest => rest.all ("01234567_".toList.contains ·)
  | c :: rest =>
    Digits.isDecimal c &&
      (rest.all isDigitOrLine || sexagesimalTail? (rest.dropWhile isDigitOrLine) == some [])
  | [] => false

/-- An exponent, which must have a sign, or nothing. -/
def isExponent : List Char → Bool
  | [] => true
  | e :: s :: rest =>
    (e == 'e' || e == 'E') && (s == '-' || s == '+') && !rest.isEmpty && rest.all Digits.isDecimal
  | _ => false

/-- Numbers with a point, in base 10 or 60, the infinities, and the number that is none. -/
def isFloat (cs : List Char) : Bool :=
  let body := dropSign cs
  let named : Bool :=
    [".inf", ".Inf", ".INF"].any (·.toList == body) || [".nan", ".NaN", ".NAN"].any (·.toList == cs)
  let pointed : Bool :=
    match cs with
    | '.' :: c :: rest =>
      Digits.isDecimal c && isExponent (rest.dropWhile isDigitOrLine)
    | _ => false
  let whole : Bool :=
    match body with
    | c :: rest =>
      Digits.isDecimal c &&
        match rest.dropWhile isDigitOrLine with
        | '.' :: rest => isExponent (rest.dropWhile isDigitOrLine)
        | rest =>
          match sexagesimalTail? rest with
          | some ('.' :: rest) => rest.all isDigitOrLine
          | _ => false
    | [] => false
  named || pointed || whole

def isBool (cs : List Char) : Bool :=
  ["yes", "Yes", "YES", "no", "No", "NO", "true", "True", "TRUE", "false", "False", "FALSE", "on",
    "On", "ON", "off", "Off", "OFF"].any (·.toList == cs)

def isNull (cs : List Char) : Bool :=
  ["", "~", "null", "Null", "NULL"].any (·.toList == cs)

end Tag

/-! ## Times -/

/-- The fields of the text of a time, as they are written. -/
structure TimeText where
  year : List Char
  month : List Char
  day : List Char
  -- the digits of hour, minute, second and fraction, if there is a time of day
  clock : Option (List Char × List Char × List Char × List Char) := none
  -- the time zone in minutes, if there is one
  zone : Option Int := none

namespace TimeText

/-- The digits at the start of a text, if their number lies between two bounds; reads no more than the
upper one. -/
def digits? (least most : Nat) (cs : List Char) : Option (List Char × List Char) :=
  let ds := (cs.take most).takeWhile Digits.isDecimal
  if least ≤ ds.length then some (ds, cs.drop ds.length) else none

def after? (c : Char) : List Char → Option (List Char)
  | d :: rest => if d = c then some rest else none
  | [] => none

/-- A time zone at the end of a text; the text may end without one. -/
def zone? (cs : List Char) : Option (Option Int) :=
  if cs.isEmpty then
    some none
  else
    match cs.dropWhile fun c => c == ' ' || c == '\t' with
    | ['Z'] => some (some 0)
    | s :: rest => do
      if s ≠ '-' ∧ s ≠ '+' then none
      let (hours, rest) ← digits? 1 2 rest
      let minutes ←
        match rest with
        | [] => pure []
        | rest => do
          let (minutes, rest) ← digits? 2 2 (← after? ':' rest)
          if rest.isEmpty then pure minutes else none
      let n : Int := Digits.value hours * 60 + Digits.value minutes
      return some (if s = '-' then -n else n)
    | [] => none

/-- A time of day and a time zone at the end of a text. -/
def clock? (date : TimeText) (cs : List Char) : Option TimeText := do
  let body ←
    match cs with
    | 'T' :: rest | 't' :: rest => pure rest
    | ' ' :: _ | '\t' :: _ => pure (cs.dropWhile fun c => c == ' ' || c == '\t')
    | _ => none
  let (hour, rest) ← digits? 1 2 body
  let (minute, rest) ← digits? 2 2 (← after? ':' rest)
  let (second, rest) ← digits? 2 2 (← after? ':' rest)
  let (fraction, rest) :=
    match rest with
    | '.' :: rest => (rest.takeWhile Digits.isDecimal, rest.dropWhile Digits.isDecimal)
    | _ => ([], rest)
  return { date with clock := some (hour, minute, second, fraction), zone := ← zone? rest }

/-- Reads the text of a date, or of a date and a time of day. -/
def parse? (cs : List Char) : Option TimeText := do
  let (year, rest) ← digits? 4 4 cs
  let (month, rest) ← digits? 1 2 (← after? '-' rest)
  let (day, rest) ← digits? 1 2 (← after? '-' rest)
  let date : TimeText := { year, month, day }
  if rest.isEmpty then return date else clock? date rest

/-- Is a text a time by its form?  A date alone must have two digits for month and day. -/
def isTime (cs : List Char) : Bool :=
  match parse? cs with
  | some t => t.clock.isSome || (t.month.length == 2 && t.day.length == 2)
  | none => false

end TimeText

namespace Tag

/-- A text without the line feed at its end, unless it is nothing else. -/
def dropFinalBreak (cs : List Char) : List Char :=
  if 1 < cs.length ∧ cs.getLast? = some '\n' then cs.dropLast else cs

/-- The tag that a text has by its form; a line feed at its end does not count. -/
def ofForm (text : List Char) : Tag :=
  let cs := dropFinalBreak text
  if isNull cs then .null
  else if isBool cs then .bool
  else if isFloat cs then .float
  else if isInt cs then .int
  else if cs == "<<".toList then .merge
  else if TimeText.isTime cs then .timestamp
  else if cs == "=".toList then .default
  else if ["!", "&", "*"].any (·.toList == cs) then .unknown
  else .text

end Tag

end Yaml

end SchemaGraft
