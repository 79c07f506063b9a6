/-!
# Double-precision numbers

A floating-point number is kept as its exact value, a mantissa times a power of two, so that rounding,
comparison and printing are arithmetic on natural numbers.

## Architecture

- `Binary64` is the type; `Binary64.ofRatio` rounds a quotient to the nearest number, a tie to the even
  mantissa.
- `Binary64.ofDecimal` reads digits and a power of ten.
- `Binary64.same` is equality of values.
-/

namespace SchemaGraft

def Binary64.minExponent : Int := -1074

def Binary64.maxExponent : Int := 971

/-- Is `mantissa * 2 ^ exponent` the normal form of a double-precision number?  The mantissa is below
`2 ^ 53`, and at least `2 ^ 52` unless the exponent is the least one. -/
def Binary64.Fits (mantissa : Nat) (exponent : Int) : Prop :=
  mantissa < 0x20000000000000 ∧ minExponent ≤ exponent ∧ exponent ≤ maxExponent ∧
    (0x10000000000000 ≤ mantissa ∨ exponent = minExponent)

instance (mantissa : Nat) (exponent : Int) : Decidable (Binary64.Fits mantissa exponent) :=
  inferInstanceAs (Decidable (_ ∧ _ ∧ _ ∧ _))

inductive Binary64 where
  -- not a number; the two readers of this library produce one sign each
  | nan (negative : Bool)
  | infinite (negative : Bool)
  -- the number `mantissa * 2 ^ exponent`, with a sign, in normal form
  | finite (negative : Bool) (mantissa : Nat) (exponent : Int)
      (fits : Binary64.Fits mantissa exponent)
deriving DecidableEq, Repr

namespace Binary64

def zero (negative : Bool) : Binary64 :=
  .finite negative 0 minExponent (by decide)

/-- `2 ^ e` for a power that is not negative, and one otherwise. -/
def twoPow (e : Int) : Nat :=
  Nat.pow 2 e.toNat

/-- `10 ^ e` for a power that is not negative, and one otherwise. -/
def tenPow (e : Int) : Nat :=
  Nat.pow 10 e.toNat

/-- The quotient of two numbers rounded to the nearest integer, a tie to the even one. -/
def roundQuotient (num den : Nat) : Nat :=
  let q := num / den
  let r := num % den
  if den < 2 * r ∨ (2 * r = den ∧ q % 2 = 1) then q + 1 else q

/-- The integer part of the binary logarithm of the positive quotient `num / den`. -/
def floorLog2 (num den : Nat) : Int :=
  let l : Int := (Nat.log2 num : Int) - (Nat.log2 den : Int)
  if num * twoPow (-l) < den * twoPow l then l - 1 else l

/-- The number nearest to `num / den`, with a sign; what is too large becomes an infinity. -/
def ofRatio (negative : Bool) (num den : Nat) : Binary64 :=
  if num = 0 then
    zero negative
  else
    let e := max minExponent (floorLog2 num den - 52)
    let m := roundQuotient (num * twoPow (-e)) (den * twoPow e)
    let (m, e) := if m = 0x20000000000000 then (0x10000000000000, e + 1) else (m, e)
    if h : Fits m e then .finite negative m e h else .infinite negative

/-- The number of decimal digits of `n`; zero has one. -/
def digitCount (n : Nat) : Nat :=
  if n < 10 then 1 else digitCount (n / 10) + 1

/-- The number nearest to `digits * 10 ^ exponent`, with a sign.  Exponents out of reach of every finite
number are decided without computing the power. -/
def ofDecimal (negative : Bool) (digits : Nat) (exponent : Int) : Binary64 :=
  if digits = 0 then
    zero negative
  else
    let magnitude : Int := exponent + digitCount digits
    if 310 < magnitude then .infinite negative
    else if magnitude < -330 then zero negative
    else ofRatio negative (digits * tenPow exponent) (tenPow (-exponent))

def ofInt (n : Int) : Binary64 :=
  ofRatio (n < 0) n.natAbs 1

/-- Has the number neither an infinite value nor none? -/
def isFinite : Binary64 → Bool
  | .finite .. => true
  | _ => false

/-- The numerator and the denominator of a finite number without its sign. -/
def ratio (mantissa : Nat) (exponent : Int) : Nat × Nat :=
  (mantissa * twoPow exponent, twoPow (-exponent))

/-- The integer that a finite number is, if it has no fraction. -/
def toInt? : Binary64 → Option Int
  | .finite negative m e _ =>
    let (num, den) := ratio m e
    if num % den = 0 then
      let n : Int := (num / den : Nat)
      some (if negative then -n else n)
    else
      none
  | _ => none

/-- Equality of values: the zeros are equal, and a number that is no number equals its like. -/
def same : Binary64 → Binary64 → Bool
  | .finite s m e _, .finite s' m' e' _ => m == m' && (m == 0 || (s == s' && e == e'))
  | x, y => x == y

def negate : Binary64 → Binary64
  | .nan s => .nan s
  | .infinite s => .infinite !s
  | .finite s m e h => .finite (!s) m e h

def isNegative : Binary64 → Bool
  | .nan s | .infinite s | .finite s .. => s

def signed (negative : Bool) (n : Nat) : Int :=
  if negative then -n else n

def add : Binary64 → Binary64 → Binary64
  | .finite s m e _, .finite s' m' e' _ =>
    let (a, b) := ratio m e
    let (c, d) := ratio m' e'
    let n := signed s (a * d) + signed s' (c * b)
    if n = 0 then zero (s && s') else ofRatio (n < 0) n.natAbs (b * d)
  | .finite .., y => y
  | .infinite s, .infinite s' => if s = s' then .infinite s else .nan true
  | .infinite _, .nan s => .nan s
  | x, _ => x

/-- A number times a positive natural number, which is rounded to double precision first. -/
def scaleBy (x : Binary64) (n : Nat) : Binary64 :=
  match x, ofRatio false n 1 with
  | .finite s m e _, .finite _ m' e' _ =>
    let (a, b) := ratio m e
    let (c, d) := ratio m' e'
    ofRatio s (a * c) (b * d)
  | x, _ => x

end Binary64

end SchemaGraft
