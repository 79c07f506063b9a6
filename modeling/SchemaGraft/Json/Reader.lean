import SchemaGraft.Json.Basic
import SchemaGraft.Text.Digits

/-!
# Reading JSON

A reader for JSON texts that reports the place of the first error.  Beyond the standard grammar it
accepts the names `NaN`, `Infinity` and `-Infinity`.

## Architecture

- `Json.readString` and `Json.readNumber` read the leaves.
- `Json.readValue`, `Json.readItems` and `Json.readMembers` read values; they count down the levels of
  nesting that are left, and a bound on their own steps that the length of the text gives.
- `Json.read` reads a whole text and turns the number of characters left into a place.
-/

namespace SchemaGraft

namespace Json

/-! ## Faults -/

inductive Complaint where
  | byteOrderMark
  | expectingValue
  | expectingName
  | expectingColon
  | expectingComma
  | extraData
  | unterminatedString
  | controlCharacter
  | badEscape
  | badUnicodeEscape
deriving DecidableEq, Repr

def Complaint.message : Complaint → String
  | .byteOrderMark => "Unexpected UTF-8 BOM (decode using utf-8-sig)"
  | .expectingValue => "Expecting value"
  | .expectingName => "Expecting property name enclosed in double quotes"
  | .expectingColon => "Expecting ':' delimiter"
  | .expectingComma => "Expecting ',' delimiter"
  | .extraData => "Extra data"
  | .unterminatedString => "Unterminated string starting at"
  | .controlCharacter => "Invalid control character at"
  | .badEscape => "Invalid \\escape"
  | .badUnicodeEscape => "Invalid \\uXXXX escape"

/-- Why reading stopped, with the number of characters that were left. -/
inductive Failure where
  | complain (complaint : Complaint) (left : Nat)
  | longInteger (digits : Nat)
  | tooDeep
deriving DecidableEq, Repr

structure SyntaxFault where
  complaint : Complaint
  -- the line, counted from 1
  line : Nat
  -- the column in the line, counted from 1
  column : Nat
  -- the number of characters in front
  offset : Nat
deriving DecidableEq, Repr

inductive ReadFault where
  | grammar (fault : SyntaxFault)
  | longInteger (digits : Nat)
  | tooDeep
deriving DecidableEq, Repr

def SyntaxFault.message (f : SyntaxFault) : Text :=
  f.complaint.message ++ ": line " ++ Text.ofNat f.line ++ " column " ++ Text.ofNat f.column ++
    " (char " ++ Text.ofNat f.offset ++ ")"

/-- The place `offset` of a text, as line and column. -/
def SyntaxFault.at (complaint : Complaint) (cs : List Char) (offset : Nat) : SyntaxFault :=
  let before := cs.take offset
  { complaint
    line := before.count '\n' + 1
    column := (before.reverse.takeWhile (· ≠ '\n')).length + 1
    offset }

/-! ## Limits -/

/-- The greatest number of digits of an integer. -/
def maxIntegerDigits : Nat := 4300

/-- The greatest number of arrays and objects that may be open at once.  How many there may be depends on the
calls that are open already; the number fits a document that is read directly. -/
def maxDepth : Nat := 985

/-! ## Leaves -/

/-- The characters between the parts of a JSON text. -/
def isBlank (c : Char) : Bool :=
  c == ' ' || c == '\n' || c == '\r' || c == '\t'

def skipBlanks (cs : List Char) : List Char :=
  cs.dropWhile isBlank

/-- The number that four hexadecimal digits denote. -/
def hex4? (a b c d : Char) : Option Nat := do
  let a ← Digits.hex? a
  let b ← Digits.hex? b
  let c ← Digits.hex? c
  let d ← Digits.hex? d
  return ((a * 16 + b) * 16 + c) * 16 + d

/-- Puts an escaped unit in front of a text; two halves of a surrogate pair become one character. -/
def pushUnit (unit : Nat) (t : Text) : Text :=
  let alone : Text :=
    match Codepoint.ofNat? unit with
    | some c => c :: t
    | none => t
  match t with
  | [] => alone
  | c :: rest =>
    if 0xD800 ≤ unit ∧ unit < 0xDC00 ∧ c.isLowSurrogate then
      .scalar (Char.ofNat (0x10000 + (unit - 0xD800) * 0x400 + (c.value - 0xDC00))) :: rest
    else
      alone

/-- The character that an escape with a single letter stands for. -/
def escaped? : Char → Option Char
  | '"' => some '"'
  | '\\' => some '\\'
  | '/' => some '/'
  | 'b' => some '\x08'
  | 'f' => some '\x0c'
  | 'n' => some '\n'
  | 'r' => some '\r'
  | 't' => some '\t'
  | _ => none

/-- Reads the rest of a string after its opening quotation mark, at which `start` characters were left.
An escape of four digits must be followed by at least one more character. -/
def readString (start : Nat) : List Char → Except Failure (Text × List Char)
  | [] => .error (.complain .unterminatedString start)
  | '"' :: rest => .ok ([], rest)
  | ['\\'] => .error (.complain .unterminatedString start)
  | '\\' :: 'u' :: a :: b :: c :: d :: rest =>
    match rest, hex4? a b c d with
    | _ :: _, some unit => do
      let (t, rest) ← readString start rest
      return (pushUnit unit t, rest)
    | _, _ => .error (.complain .badUnicodeEscape (rest.length + 5))
  | '\\' :: 'u' :: rest => .error (.complain .badUnicodeEscape (rest.length + 1))
  | '\\' :: c :: rest =>
    match escaped? c with
    | some e => do
      let (t, rest) ← readString start rest
      return (.scalar e :: t, rest)
    | none => .error (.complain .badEscape (rest.length + 2))
  | c :: rest =>
    if c < ' ' then
      .error (.complain .controlCharacter (rest.length + 1))
    else do
      let (t, rest) ← readString start rest
      return (.scalar c :: t, rest)

/-- The digits at the start of a text, and what follows them. -/
def spanDigits (cs : List Char) : List Char × List Char :=
  (cs.takeWhile Digits.isDecimal, cs.dropWhile Digits.isDecimal)

/-- The digits of a fraction, if the text starts with a point and a digit. -/
def readFraction (cs : List Char) : List Char × List Char :=
  match cs with
  | '.' :: rest =>
    let (digits, after) := spanDigits rest
    if digits.isEmpty then ([], cs) else (digits, after)
  | _ => ([], cs)

/-- An exponent, if the text starts with its mark, perhaps a sign, and a digit. -/
def readExponent (cs : List Char) : Option Int × List Char :=
  match cs with
  | c :: rest =>
    if c = 'e' ∨ c = 'E' then
      let (negative, body) :=
        match rest with
        | '-' :: body => (true, body)
        | '+' :: body => (false, body)
        | _ => (false, rest)
      let (digits, after) := spanDigits body
      if digits.isEmpty then
        (none, cs)
      else
        let n : Int := Digits.value digits
        (some (if negative then -n else n), after)
    else
      (none, cs)
  | [] => (none, cs)

/-- The digits in front of a point: a single zero, or digits that do not start with zero. -/
def readWhole (cs : List Char) : List Char × List Char :=
  match cs with
  | '0' :: rest => (['0'], rest)
  | _ => spanDigits cs

/-- Reads a number; `none` when the text does not start with one. -/
def readNumber (cs : List Char) : Option (Except Failure (Json × List Char)) :=
  let (negative, body) :=
    match cs with
    | '-' :: body => (true, body)
    | _ => (false, cs)
  let (whole, rest) := readWhole body
  if whole.isEmpty then
    none
  else
    let (fraction, rest) := readFraction rest
    let (exponent, rest) := readExponent rest
    if fraction.isEmpty && exponent.isNone then
      if maxIntegerDigits < whole.length then
        some (.error (.longInteger whole.length))
      else
        let n : Int := Digits.value whole
        some (.ok (.int (if negative then -n else n), rest))
    else
      let digits := Digits.value (whole ++ fraction)
      let x := Binary64.ofDecimal negative digits (exponent.getD 0 - fraction.length)
      some (.ok (.float x, rest))

/-! ## Values -/

mutual

def readValue (fuel depth : Nat) (cs : List Char) : Except Failure (Json × List Char) :=
  match fuel with
  | 0 => .error .tooDeep
  | fuel + 1 =>
    match cs with
    | '"' :: rest => do
      let (t, rest) ← readString cs.length rest
      return (.text t, rest)
    | '\x7b' :: rest =>
      match depth with
      | 0 => .error .tooDeep
      | depth + 1 =>
        match skipBlanks rest with
        | '\x7d' :: rest => .ok (.object [], rest)
        | rest => do
          let (pairs, rest) ← readMembers fuel depth rest
          return (.object (ofPairs pairs), rest)
    | '[' :: rest =>
      match depth with
      | 0 => .error .tooDeep
      | depth + 1 =>
        match skipBlanks rest with
        | ']' :: rest => .ok (.list [], rest)
        | rest => do
          let (items, rest) ← readItems fuel depth rest
          return (.list items, rest)
    | 'n' :: 'u' :: 'l' :: 'l' :: rest => .ok (.null, rest)
    | 't' :: 'r' :: 'u' :: 'e' :: rest => .ok (.bool true, rest)
    | 'f' :: 'a' :: 'l' :: 's' :: 'e' :: rest => .ok (.bool false, rest)
    | 'N' :: 'a' :: 'N' :: rest => .ok (.float (.nan false), rest)
    | 'I' :: 'n' :: 'f' :: 'i' :: 'n' :: 'i' :: 't' :: 'y' :: rest =>
      .ok (.float (.infinite false), rest)
    | '-' :: 'I' :: 'n' :: 'f' :: 'i' :: 'n' :: 'i' :: 't' :: 'y' :: rest =>
      .ok (.float (.infinite true), rest)
    | _ => (readNumber cs).getD (.error (.complain .expectingValue cs.length))

/-- Reads the items of an array, at least one, and its closing bracket. -/
def readItems (fuel depth : Nat) (cs : List Char) : Except Failure (List Json × List Char) :=
  match fuel with
  | 0 => .error .tooDeep
  | fuel + 1 => do
    let (v, rest) ← readValue fuel depth cs
    match skipBlanks rest with
    | ']' :: rest => return ([v], rest)
    | ',' :: rest => do
      let (vs, rest) ← readItems fuel depth (skipBlanks rest)
      return (v :: vs, rest)
    | rest => .error (.complain .expectingComma rest.length)

/-- Reads the members of an object, at least one, and its closing brace. -/
def readMembers (fuel depth : Nat) (cs : List Char) :
    Except Failure (List (Text × Json) × List Char) :=
  match fuel with
  | 0 => .error .tooDeep
  | fuel + 1 =>
    match cs with
    | '"' :: rest => do
      let (n, rest) ← readString cs.length rest
      match skipBlanks rest with
      | ':' :: rest => do
        let (v, rest) ← readValue fuel depth (skipBlanks rest)
        match skipBlanks rest with
        | '\x7d' :: rest => return ([(n, v)], rest)
        | ',' :: rest => do
          let (ms, rest) ← readMembers fuel depth (skipBlanks rest)
          return ((n, v) :: ms, rest)
        | rest => .error (.complain .expectingComma rest.length)
      | rest => .error (.complain .expectingColon rest.length)
    | rest => .error (.complain .expectingName rest.length)

end

/-- Reads a text that holds one value and nothing else but blanks. -/
def readAll (cs : List Char) : Except Failure Json :=
  if cs.head? = some '\ufeff' then
    .error (.complain .byteOrderMark cs.length)
  else do
    let (v, rest) ← readValue (2 * cs.length + 2) maxDepth (skipBlanks cs)
    match skipBlanks rest with
    | [] => return v
    | rest => .error (.complain .extraData rest.length)

def read (cs : List Char) : Except ReadFault Json :=
  match readAll cs with
  | .ok v => .ok v
  | .error (.complain c left) => .error (.grammar (SyntaxFault.at c cs (cs.length - left)))
  | .error (.longInteger n) => .error (.longInteger n)
  | .error .tooDeep => .error .tooDeep

end Json

end SchemaGraft
