import SchemaGraft.Text.Blank
import SchemaGraft.Validation.Issue
import SchemaGraft.Value.Display

/-!
# Checks of single values

The lenient readings of texts, integers and truth values, and the checks of lists, mappings and the
names of a record's members.
-/

namespace SchemaGraft

namespace Check

/-! ## Texts and collections -/

def text : Value → Checked Text
  | .scalar (.text t) => .ok t
  | .scalar (.bytes bs) =>
    match Utf8.decode bs with
    | .ok cs => .ok (Text.ofChars cs)
    | .error _ => Checked.fail .textUnicode
  | _ => Checked.fail .textType

def optional {α : Type} (check : Value → Checked α) : Value → Checked (Option α)
  | .scalar .null => .ok none
  | v => (check v).map some

/-- The items of a sequence; any other value has the issue `otherwise`. -/
def sequence {α : Type} (otherwise : IssueKind) (check : Value → Checked α) :
    Value → Checked (List α)
  | .list items => Checked.each check items
  | .pair a b => Checked.each check [a, b]
  | .set members => Checked.each check (members.map .scalar)
  | _ => Checked.fail otherwise

def list {α : Type} (check : Value → Checked α) : Value → Checked (List α) :=
  sequence .listType check

/-- The step to an entry of a mapping: an integer for a key that counts as one, and the key's text
otherwise. -/
def keyStep (key : Scalar) : Step :=
  match key with
  | .text t => .field t
  | s =>
    match s.toInt? with
    | some n =>
      if -0x8000000000000000 ≤ n ∧ n < 0x8000000000000000 then .index n else .field (Text.ofInt n)
    | none => .field s.display

def dictionary : Value → Checked (List (Text × Value))
  | .object ms => (go ms).map Json.ofPairs
  | _ => Checked.fail .objectType
where
  /-- Checks the keys one after the other. -/
  go : List (Scalar × Value) → Checked (List (Text × Value))
    | [] => .ok []
    | (k, v) :: rest =>
      (Checked.both (Checked.under (keyStep k) (Checked.under (.field "[key]") (text (.scalar k))))
        (go rest)).map fun p => (p.1, v) :: p.2

/-! ## Records -/

/-- The members of a record that stands for one of the named kind. -/
def record (name : String) : Value → Checked (List (Scalar × Value))
  | .object ms => .ok ms
  | _ => Checked.fail (.recordType name)

def member? (ms : List (Scalar × Value)) (name : String) : Option Value :=
  Scalar.lookup (.text name) ms

def required {α : Type} (ms : List (Scalar × Value)) (name : String) (check : Value → Checked α) :
    Checked α :=
  Checked.under (.field name) <|
    match member? ms name with
    | some v => check v
    | none => Checked.fail .missing

def possible {α : Type} (ms : List (Scalar × Value)) (name : String) (check : Value → Checked α) :
    Checked (Option α) :=
  match member? ms name with
  | some v => (Checked.under (.field name) (check v)).map some
  | none => .ok none

/-- Is there a member whose name cannot be encoded? -/
def hasLoneSurrogate (ms : List (Scalar × Value)) : Bool :=
  ms.any fun m =>
    match m.1 with
    | .text t => t.any Codepoint.isSurrogate
    | _ => false

/-- The members of a record beyond the declared ones; their names must be texts. -/
def extras (declared : List String) (ms : List (Scalar × Value)) : Checked (List (Text × Value)) :=
  go (ms.filter fun m => !(declared.any fun n => m.1 == .text n))
where
  /-- Checks the names one after the other. -/
  go : List (Scalar × Value) → Checked (List (Text × Value))
    | [] => .ok []
    | (k, v) :: rest =>
      let name : Checked Text :=
        match k with
        | .text t => .ok t
        | _ => Checked.under (keyStep k) (Checked.fail .invalidKey)
      (Checked.both name (go rest)).map fun p => (p.1, v) :: p.2

/-- A record that looks at the names of all its members: a name that cannot be encoded is the only
issue that is reported. -/
def readable {α : Type} (ms : List (Scalar × Value)) (checked : Checked α) : Checked α :=
  if hasLoneSurrogate ms then Checked.fail .textUnicode else checked

/-! ## Integers -/

/-- The greatest number of digits of an integer in a text. -/
def maxIntegerDigits : Nat := 4300

/-- Is the character one of those in front of the first digit that counts? -/
def isFiller (c : Char) : Bool :=
  c == '0' || c == '_'

/-- The numeral without the zeros at its start, and without underscores in between them.  The last of them
stays when no digit follows. -/
def dropLeadingZeros (cs : List Char) : List Char :=
  match cs with
  | '0' :: rest =>
    let last := ((rest.takeWhile isFiller).getLast?).getD '0'
    match rest.dropWhile isFiller with
    | [] => [last]
    | '.' :: more => last :: '.' :: more
    | more => more
  | _ => cs

/-- The numeral without a point that one or more zeros, and nothing else, follow. -/
def dropZeroFraction (cs : List Char) : List Char :=
  match cs.dropWhile (· ≠ '.') with
  | '.' :: '0' :: more => if more.all (· == '0') then cs.takeWhile (· ≠ '.') else cs
  | _ => cs

/-- The digits of a numeral that may have single underscores between two digits. -/
def joinDigits? : List Char → Option (List Char)
  | [] => none
  | [c] => if Digits.isDecimal c then some [c] else none
  | c :: '_' :: d :: rest =>
    if Digits.isDecimal c then (joinDigits? (d :: rest)).map (c :: ·) else none
  | c :: d :: rest =>
    if Digits.isDecimal c then (joinDigits? (d :: rest)).map (c :: ·) else none

/-- The digits of a numeral: leading zeros, underscores between digits and a fraction of zeros are allowed. -/
def numeralDigits? (cs : List Char) : Option (List Char) :=
  match cs.head?.bind Digits.decimal? with
  | none => none
  | some _ => joinDigits? (dropZeroFraction (dropLeadingZeros cs))

/-- Is there a minus in front, and what is behind the sign? -/
def splitSign : List Char → Bool × List Char
  | '-' :: body => (true, body)
  | '+' :: body => (false, body)
  | cs => (false, cs)

/-- The integer that a text denotes: a numeral, with a sign or without one, and with blanks around it. -/
def integerOfText (t : Text) : Checked Int :=
  match (t.strip Codepoint.isBlank).toChars? with
  | none => Checked.fail .textUnicode
  | some cs =>
    let (isNegative, body) := splitSign cs
    match numeralDigits? body with
    | none => Checked.fail .integerParsing
    | some digits =>
      if maxIntegerDigits < digits.length then
        Checked.fail .integerParsingSize
      else
        let n : Int := Digits.value digits
        .ok (if isNegative then -n else n)

/-- The integer that a number without fraction is, if it lies strictly within 64 bits. -/
def integerOfFloat (x : Binary64) : Checked Int :=
  if x.isFinite then
    match x.toInt? with
    | none => Checked.fail .integerFromFloat
    | some n =>
      if -0x8000000000000000 < n ∧ n < 0x8000000000000000 then .ok n else Checked.fail .integerParsingSize
  else
    Checked.fail .finiteNumber

/-- An integer, or a truth value, number or text that stands for one. -/
def integer : Value → Checked Int
  | .scalar (.int n) => .ok n
  | .scalar (.bool b) => .ok (if b then 1 else 0)
  | .scalar (.float x) => integerOfFloat x
  | .scalar (.text t) => integerOfText t
  | .scalar (.bytes bs) =>
    match Utf8.decode bs with
    | .ok cs => integerOfText (Text.ofChars cs)
    | .error _ => Checked.fail .integerParsing
  | _ => Checked.fail .integerType

/-! ## Truth values -/

/-- The words for a truth value, in small letters. -/
def boolWord? (t : Text) : Option Bool :=
  if [("true" : Text), "t", "yes", "y", "on", "1"].contains t then some true
  else if [("false" : Text), "f", "no", "n", "off", "0"].contains t then some false
  else none

/-- The truth value that a word stands for, in any case of its letters. -/
def boolOfText (t : Text) : Checked Bool :=
  match boolWord? t.toLowerAscii with
  | some b => .ok b
  | none => Checked.fail (if t.any Codepoint.isSurrogate then .textUnicode else .boolParsing)

/-- The truth value that an integer stands for. -/
def boolOfInt (n : Int) : Checked Bool :=
  if n = 0 then .ok false
  else if n = 1 then .ok true
  else Checked.fail .boolParsing

/-- A truth value, or an integer, number or text that stands for one. -/
def bool : Value → Checked Bool
  | .scalar (.bool b) => .ok b
  | .scalar (.text t) => boolOfText t
  | .scalar (.bytes bs) =>
    match Utf8.decode bs with
    | .ok cs => boolOfText (Text.ofChars cs)
    | .error _ => Checked.fail .boolParsing
  | .scalar (.int n) =>
    if -0x8000000000000000 ≤ n ∧ n < 0x8000000000000000 then boolOfInt n else Checked.fail .boolType
  | .scalar (.float x) =>
    match integerOfFloat x with
    | .ok n => boolOfInt n
    | .error _ => Checked.fail .boolType
  | _ => Checked.fail .boolType

end Check

end SchemaGraft
