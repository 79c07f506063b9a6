import SchemaGraft.Number.Binary64
import SchemaGraft.Text.Blank
import SchemaGraft.Text.Digits

/-!
# Reading numerals

Integers in a given base and floating-point numbers, as they stand in the text of a tagged value:
blanks around the numeral and a sign in front of it are allowed, and the decimal digits of every script
count.
-/

namespace SchemaGraft

namespace Numeral

/-- The greatest number of decimal digits of an integer. -/
def maxDigits : Nat := 4300

/-- The digits for zero of the scripts beyond ASCII that have decimal digits; the other nine follow each. -/
def scriptZeros : List Nat :=
  [0x660, 0x6F0, 0x7C0, 0x966, 0x9E6, 0xA66, 0xAE6, 0xB66, 0xBE6, 0xC66, 0xCE6, 0xD66, 0xDE6, 0xE50, 0xED0,
    0xF20, 0x1040, 0x1090, 0x17E0, 0x1810, 0x1946, 0x19D0, 0x1A80, 0x1A90, 0x1B50, 0x1BB0, 0x1C40, 0x1C50,
    0xA620, 0xA8D0, 0xA900, 0xA9D0, 0xA9F0, 0xAA50, 0xABF0, 0xFF10, 0x104A0, 0x10D30, 0x11066, 0x110F0,
    0x11136, 0x111D0, 0x112F0, 0x11450, 0x114D0, 0x11650, 0x116C0, 0x11730, 0x118E0, 0x11950, 0x11C50,
    0x11D50, 0x11DA0, 0x16A60, 0x16AC0, 0x16B50, 0x1D7CE, 0x1D7D8, 0x1D7E2, 0x1D7EC, 0x1D7F6, 0x1E140,
    0x1E2F0, 0x1E950, 0x1FBF0]

/-- The ASCII digit that a decimal digit of any script stands for; other characters stand for themselves. -/
def asciiDigit (c : Char) : Char :=
  if c.toNat < 0x80 then c
  else
    match scriptZeros.find? fun start => start ≤ c.toNat && c.toNat < start + 10 with
    | some start => Digits.digitChar (c.toNat - start)
    | none => c

/-- The characters of a numeral, without the blanks around it; a numeral holds no lone surrogate. -/
def chars? (t : Text) : Option (List Char) :=
  (t.strip Codepoint.isBlank).toChars?.map (·.map asciiDigit)

inductive IntegerFault where
  | malformed
  | tooLong (digits : Nat)
deriving DecidableEq, Repr

/-- A sign and what follows it; without a sign the numeral is not negative. -/
def splitSign (cs : List Char) : Bool × List Char :=
  match cs with
  | '-' :: rest => (true, rest)
  | '+' :: rest => (false, rest)
  | _ => (false, cs)

/-- The letters that may stand after a zero to announce a base. -/
def baseLetters (base : Nat) : List Char :=
  if base = 2 then ['b', 'B'] else if base = 8 then ['o', 'O'] else if base = 16 then ['x', 'X'] else []

/-- A numeral without the announcement of its base. -/
def dropBase (base : Nat) (cs : List Char) : List Char :=
  match cs with
  | '0' :: c :: rest => if (baseLetters base).contains c then rest else cs
  | _ => cs

def isDigitIn (base : Nat) (c : Char) : Bool :=
  (Digits.hex? c).any (· < base)

/-- The integer that a text denotes in a base of at most 16.  A numeral that is too long is found before
anything that follows its digits. -/
def integer (base : Nat) (t : Text) : Except IntegerFault Int :=
  match chars? t with
  | none => .error .malformed
  | some cs =>
    let (negative, body) := splitSign cs
    let body := dropBase base body
    let digits := body.takeWhile (isDigitIn base)
    if digits.isEmpty then
      .error .malformed
    else if base = 10 ∧ maxDigits < digits.length then
      .error (.tooLong digits.length)
    else if digits.length < body.length then
      .error .malformed
    else
      .ok (Binary64.signed negative (Digits.valueIn base Digits.hex? digits))

/-- The exponent at the end of a numeral; there may be none. -/
def exponent? (cs : List Char) : Option Int :=
  match cs with
  | [] => some 0
  | e :: rest =>
    let (negative, digits) := splitSign rest
    if (e == 'e' || e == 'E') && !digits.isEmpty && digits.all Digits.isDecimal then
      some (Binary64.signed negative (Digits.value digits))
    else
      none

/-- The number that digits with a point and an exponent denote. -/
def decimal? (negative : Bool) (cs : List Char) : Option Binary64 :=
  let whole := cs.takeWhile Digits.isDecimal
  let rest := cs.dropWhile Digits.isDecimal
  let (fraction, rest) :=
    match rest with
    | '.' :: rest => (rest.takeWhile Digits.isDecimal, rest.dropWhile Digits.isDecimal)
    | _ => ([], rest)
  if whole.isEmpty && fraction.isEmpty then
    none
  else
    (exponent? rest).map fun e =>
      Binary64.ofDecimal negative (Digits.value (whole ++ fraction)) (e - fraction.length)

/-- The floating-point number that a text denotes; the words for the infinities and for the number that
is none are read in any case of their letters. -/
def float? (t : Text) : Option Binary64 :=
  match chars? t with
  | none => none
  | some cs =>
    let (negative, body) := splitSign cs
    let word := body.map Char.toLower
    if word = "inf".toList ∨ word = "infinity".toList then some (.infinite negative)
    else if word = "nan".toList then some (.nan true)
    else decimal? negative body

end Numeral

end SchemaGraft
