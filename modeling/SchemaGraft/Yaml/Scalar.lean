import SchemaGraft.Number.Reading
import SchemaGraft.Text.Base64
import SchemaGraft.Value.Basic
import SchemaGraft.Yaml.Tag
import SchemaGraft.Yaml.Token

/-!
# Scalars of a YAML document

The value that the text of a scalar denotes under its tag.
-/

namespace SchemaGraft

namespace Yaml

/-! ## Numbers -/

def dropUnderscores (t : Text) : Text :=
  t.filter (· ≠ .scalar '_')

/-- The sign in front of a number, and what follows it; there must be some text. -/
def signOf (t : Text) : Except Fault (Bool × Text) :=
  match t with
  | [] => .error .emptyNumber
  | c :: rest =>
    if c = .scalar '-' then .ok (true, rest)
    else if c = .scalar '+' then .ok (false, rest)
    else .ok (false, t)

def integerIn (base : Nat) (t : Text) : Except Fault Int :=
  match Numeral.integer base t with
  | .ok n => .ok n
  | .error (.tooLong n) => .error (.longInteger n)
  | .error .malformed => .error (.badInteger base t)

def sexagesimal (t : Text) : List Text :=
  t.splitOn (.scalar ':')

/-- An integer without its sign: in base 2, 16 or 8 by its first characters, in base 60 when it has
colons, and in base 10 otherwise. -/
def magnitude (t : Text) : Except Fault Int := do
  if t.startsWith "0b" then integerIn 2 (t.drop 2)
  else if t.startsWith "0x" then integerIn 16 (t.drop 2)
  else if t = "0" then return 0
  else if t.startsWith "0" then integerIn 8 t
  else if t.isEmpty then throw .emptyNumber
  else if t.holds ':' then
    return (← (sexagesimal t).mapM (integerIn 10)).foldl (fun n d => n * 60 + d) 0
  else integerIn 10 t

def integer (t : Text) : Except Fault Int := do
  let (negative, body) ← signOf (dropUnderscores t)
  let n ← magnitude body
  return if negative then -n else n

def floatPart (t : Text) : Except Fault Binary64 :=
  match Numeral.float? t with
  | some x => .ok x
  | none => .error (.badNumber t)

/-- The greatest power of 60 that a floating-point number can be multiplied by. -/
def maxWeight : Nat := 173

/-- Adds up the places of a number in base 60, the lowest of which has weight `60 ^ place`. -/
def addPlaces (sum : Binary64) (place : Nat) : List Binary64 → Except Fault Binary64
  | [] => .ok sum
  | x :: rest =>
    if maxWeight < place then .error .hugeWeight
    else addPlaces (sum.add (x.scaleBy (Nat.pow 60 place))) (place + 1) rest

/-- A floating-point number: a name, or digits in base 60 or 10. -/
def float (t : Text) : Except Fault Binary64 := do
  let (negative, body) ← signOf (dropUnderscores t).toLowerAscii
  let x ←
    if body = ".inf" then pure (.infinite false)
    else if body = ".nan" then pure (.nan true)
    else if body.holds ':' then do
      addPlaces (.zero false) 0 (← (sexagesimal body).mapM floatPart).reverse
    else floatPart body
  return if negative then x.negate else x

/-! ## Other scalars -/

def bool (t : Text) : Except Fault Bool :=
  let word := t.toLowerAscii
  if [("yes" : Text), "true", "on"].contains word then .ok true
  else if [("no" : Text), "false", "off"].contains word then .ok false
  else .error .badBool

/-- The bytes that a text in base 64 denotes; the text must be in ASCII. -/
def binary (t : Text) : Except Fault Bytes :=
  match t.toChars? with
  | none => .error .malformed
  | some cs =>
    if cs.all (·.toNat < 0x80) then
      match Base64.decode? cs with
      | some bs => .ok bs
      | none => .error .malformed
    else
      .error .malformed

def field (digits : List Char) : Nat :=
  Digits.value digits

/-- The value of the fraction of a second, in microseconds; further digits are cut off. -/
def microseconds (fraction : List Char) : Nat :=
  let digits := fraction.take 6
  field digits * Nat.pow 10 (6 - digits.length)

/-- The date or time that the fields of its text give. -/
def timeOf (t : TimeText) : Except CalendarFault Scalar := do
  match t.clock with
  | none => return .date (← Date.check (field t.year) (field t.month) (field t.day))
  | some (hour, minute, second, fraction) =>
    let offset ← t.zone.mapM Timestamp.checkOffset
    let date ← Date.check (field t.year) (field t.month) (field t.day)
    return .timestamp
      (← Timestamp.check date (field hour) (field minute) (field second) (microseconds fraction) offset)

/-- A date, or a date and a time of day; a line feed may follow. -/
def timestamp (t : Text) : Except Fault Scalar :=
  match t.toChars?.bind fun cs => TimeText.parse? (Tag.dropFinalBreak cs) with
  | none => .error .badTimestamp
  | some fields =>
    match timeOf fields with
    | .ok s => .ok s
    | .error f => .error (.calendar f)

/-- The value of a scalar under a tag for scalars. -/
def scalarOf (tag : Tag) (t : Text) : Except Fault Scalar :=
  match tag with
  | .null => .ok .null
  | .bool => (bool t).map .bool
  | .int => (integer t).map .int
  | .float => (float t).map .float
  | .binary => (binary t).map .bytes
  | .timestamp => timestamp t
  | .text => .ok (.text t)
  | _ => .error .malformed

end Yaml

end SchemaGraft
