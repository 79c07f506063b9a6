import SchemaGraft.Text.Codepoint

/-!
# Numerals

Decimal and hexadecimal numerals of natural numbers and integers.
-/

namespace SchemaGraft

namespace Digits

def digitChar (d : Nat) : Char :=
  if d < 10 then Char.ofNat (0x30 + d) else Char.ofNat (0x57 + d)

def decimal? (c : Char) : Option Nat :=
  if '0' ≤ c ∧ c ≤ '9' then some (c.toNat - 0x30) else none

/-- The value of a hexadecimal digit, of either case. -/
def hex? (c : Char) : Option Nat :=
  if '0' ≤ c ∧ c ≤ '9' then some (c.toNat - 0x30)
  else if 'a' ≤ c ∧ c ≤ 'f' then some (c.toNat - 0x57)
  else if 'A' ≤ c ∧ c ≤ 'F' then some (c.toNat - 0x37)
  else none

def isDecimal (c : Char) : Bool :=
  '0' ≤ c && c ≤ '9'

/-- The numeral of `n` in base `base + 2`, put before `tail`. -/
def onto (base n : Nat) (tail : List Char) : List Char :=
  if n < base + 2 then
    digitChar n :: tail
  else
    onto base (n / (base + 2)) (digitChar (n % (base + 2)) :: tail)
termination_by n
decreasing_by
  exact Nat.div_lt_self (by omega) (by omega)

/-- The decimal numeral of a natural number, without leading zeros. -/
def ofNat (n : Nat) : List Char :=
  onto 8 n []

def ofInt : Int → List Char
  | .ofNat n => ofNat n
  | .negSucc n => '-' :: ofNat (n + 1)

/-- The hexadecimal numeral of `n`, filled with zeros to at least `width` digits. -/
def hexadecimal (width n : Nat) : List Char :=
  let digits := onto 14 n []
  List.replicate (width - digits.length) '0' ++ digits

/-- The decimal numeral of `n`, filled with zeros to at least `width` digits. -/
def padded (width n : Nat) : List Char :=
  let digits := ofNat n
  List.replicate (width - digits.length) '0' ++ digits

/-- The number a list of digits denotes in base `base`; the digits are read by `digit?`. -/
def valueIn (base : Nat) (digit? : Char → Option Nat) (cs : List Char) : Nat :=
  cs.foldl (fun n c => n * base + (digit? c).getD 0) 0

def value (cs : List Char) : Nat :=
  valueIn 10 decimal? cs

end Digits

namespace Text

def ofNat (n : Nat) : Text :=
  ofChars (Digits.ofNat n)

def ofInt (n : Int) : Text :=
  ofChars (Digits.ofInt n)

end Text

end SchemaGraft
