import SchemaGraft.Number.Binary64
import SchemaGraft.Text.Digits

/-!
# Shortest numerals of floating-point numbers

A finite number is written with the fewest decimal digits that read back to it, and of those with the
digits nearest to it.  `NumberStyle` says how digits and exponent are laid out.
-/

namespace SchemaGraft

namespace Binary64

/-! ## Digits -/

/-- The integer part of the decimal logarithm of the positive quotient `num / den`. -/
def floorLog10 (num den : Nat) : Int :=
  let l : Int := (digitCount num : Int) - (digitCount den : Int)
  if num * tenPow (-l) < den * tenPow l then l - 1 else l

/-- The decimal with `count` digits next to a number, if one reads back to it: its digits and the power
of ten they are multiplied by.  `place` is the decimal logarithm of the number. -/
def decimalOf? (x : Binary64) (num den : Nat) (place : Int) (count : Nat) : Option (Nat × Int) :=
  let e := place - (count : Int) + 1
  let num := num * tenPow (-e)
  let den := den * tenPow e
  let below := num / den
  let rest := num % den
  let hits (d : Nat) : Bool := ofDecimal false d e == x
  if hits below && (!hits (below + 1) || 2 * rest < den || (2 * rest == den && below % 2 == 0)) then
    some (below, e)
  else if hits (below + 1) then
    some (below + 1, e)
  else
    none

/-- The shortest decimal that reads back to the positive number `mantissa * 2 ^ exponent`. -/
def shortestDecimal (mantissa : Nat) (exponent : Int) (fits : Fits mantissa exponent) : Nat × Int :=
  let (num, den) := ratio mantissa exponent
  let place := floorLog10 num den
  let found := (List.range 17).findSome? fun n =>
    decimalOf? (.finite false mantissa exponent fits) num den place (n + 1)
  found.getD (num / den, 0)

/-- A number of digits without the zeros at its end, which go into the exponent. -/
def trimZeros (fuel : Nat) (digits : Nat) (exponent : Int) : Nat × Int :=
  match fuel with
  | 0 => (digits, exponent)
  | fuel + 1 =>
    if digits % 10 = 0 ∧ digits ≠ 0 then trimZeros fuel (digits / 10) (exponent + 1)
    else (digits, exponent)

end Binary64

/-! ## Layout -/

/-- How the digits of a floating-point number are laid out. -/
structure NumberStyle where
  -- the least decimal exponent that is written without an exponent part
  minPositional : Int
  -- the least decimal exponent above that which needs an exponent part again
  maxPositional : Int
  -- the least number of digits of an exponent
  exponentWidth : Nat

/-- Numbers from `0.0001` to below `10 ^ 16` are written with a point, all others with an exponent of at
least two digits. -/
def NumberStyle.standard : NumberStyle :=
  ⟨-4, 16, 2⟩

/-- Lays out a positive decimal, given by its digits and the exponent of its first digit. -/
def NumberStyle.layout (style : NumberStyle) (digits : List Char) (place : Int) : List Char :=
  if style.minPositional ≤ place ∧ place < style.maxPositional then
    if place < 0 then
      '0' :: '.' :: List.replicate (-place - 1).toNat '0' ++ digits
    else
      let whole := place.toNat + 1
      let front := digits.take whole ++ List.replicate (whole - digits.length) '0'
      let back := digits.drop whole
      front ++ '.' :: (if back.isEmpty then ['0'] else back)
  else
    let back := digits.drop 1
    digits.take 1 ++ (if back.isEmpty then [] else '.' :: back) ++
      'e' :: (if place < 0 then '-' else '+') :: Digits.padded style.exponentWidth place.natAbs

def Binary64.numeral : Binary64 → List Char
  | .nan _ => "nan".toList
  | .infinite negative => (if negative then ['-'] else []) ++ "inf".toList
  | .finite negative m e fits =>
    (if negative then ['-'] else []) ++
      if m = 0 then
        "0.0".toList
      else
        let (digits, exponent) := Binary64.shortestDecimal m e fits
        let (digits, exponent) := Binary64.trimZeros 400 digits exponent
        let digits := Digits.ofNat digits
        NumberStyle.standard.layout digits (exponent + digits.length - 1)

end SchemaGraft
