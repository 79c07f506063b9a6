import SchemaGraft.Text.Codepoint

/-!
# Loggers and their threshold

All loggers lie under one root, whose threshold comes from the environment.
-/

namespace SchemaGraft

inductive ThresholdFault where
  -- it names the layout of records
  | layout
  -- it names the list of all layouts
  | allLayouts
deriving DecidableEq, Repr

def ThresholdFault.message : ThresholdFault → Text
  | .layout => "Unknown level: '%(levelname)s:%(name)s:%(message)s'"
  | .allLayouts => "Level not an integer or a valid string"

namespace LogLevel

def root : Text :=
  "idl_pilot"

/-- The full name of a logger; without a name of its own it is the root. -/
def loggerName (name : Option Text) : Text :=
  match name with
  | none | some [] => root
  | some n => root ++ "." ++ n

def levels : List (String × Nat) :=
  [("CRITICAL", 50), ("FATAL", 50), ("ERROR", 40), ("WARNING", 30), ("WARN", 30), ("INFO", 20),
    ("DEBUG", 10), ("NOTSET", 0)]

def defaultLevel : Nat := 20

/-- The capital of a letter, as far as the names of thresholds need it: besides the small ASCII letters,
the dotless i and the long s have ASCII capitals. -/
def capital (c : Char) : Char :=
  if c = 'ı' then 'I' else if c = 'ſ' then 'S' else c.toUpper

def toUpper (t : Text) : Text :=
  t.map fun
    | .scalar c => .scalar (capital c)
    | c => c

/-- The threshold that a setting names, in letters of either case.  Two words are taken: the name of the
layout of records and that of the list of all layouts. -/
def threshold (setting : Option Text) : Except ThresholdFault Nat :=
  match setting.map toUpper with
  | none => .ok defaultLevel
  | some t =>
    if t = "BASIC_FORMAT" then .error .layout
    else if t = "_STYLES" then .error .allLayouts
    else
      match levels.find? fun l => Text.ofString l.1 == t with
      | some l => .ok l.2
      | none => .ok defaultLevel

end LogLevel

end SchemaGraft
