/-!
# Code points and texts

A document may spell half of a surrogate pair in a string escape, and such a half is kept as a value
until something has to be encoded.  Texts are therefore lists of code points, where a code point is
either a character or a lone surrogate.

## Architecture

- `Codepoint` is the alphabet, `Codepoint.value` its place in the code space.
- `Text` is a list of code points, ordered by `Text.le`.
- `Text.replaceAll`, `Text.join` and their like are the string operations the library uses.
-/

namespace SchemaGraft

/-! ## Code points -/

/-- A Unicode code point: a character, or one half of a surrogate pair standing alone. -/
inductive Codepoint where
  -- a character, that is, a Unicode scalar value
  | scalar (c : Char)
  -- the surrogate `U+D800 + offset`
  | surrogate (offset : Fin 2048)
deriving DecidableEq, Repr

namespace Codepoint

def value : Codepoint → Nat
  | .scalar c => c.toNat
  | .surrogate o => 0xD800 + o.val

/-- The code point with number `n`, if there is one. -/
def ofNat? (n : Nat) : Option Codepoint :=
  if h : n.isValidChar then
    some (.scalar (Char.ofNatAux n h))
  else if h : 0xD800 ≤ n ∧ n < 0xE000 then
    some (.surrogate ⟨n - 0xD800, by omega⟩)
  else
    none

def isLowSurrogate (c : Codepoint) : Bool :=
  0xDC00 ≤ c.value && c.value < 0xE000

def isSurrogate : Codepoint → Bool
  | .scalar _ => false
  | .surrogate _ => true

instance : Coe Char Codepoint := ⟨.scalar⟩

instance : Inhabited Codepoint := ⟨.scalar ' '⟩

end Codepoint

/-! ## Texts -/

abbrev Text := List Codepoint

namespace Text

def ofChars (cs : List Char) : Text :=
  cs.map .scalar

def ofString (s : String) : Text :=
  ofChars s.toList

instance : Coe String Text := ⟨ofString⟩

/-- The characters of a text, unless it holds a lone surrogate. -/
def toChars? : Text → Option (List Char)
  | [] => some []
  | .scalar c :: rest => (toChars? rest).map (c :: ·)
  | .surrogate _ :: _ => none

def le : Text → Text → Bool
  | [], _ => true
  | _ :: _, [] => false
  | a :: s, b :: t => a.value < b.value || (a.value == b.value && le s t)

/-- Parts with a separator between each two neighbours. -/
def join (separator : Text) : List Text → Text
  | [] => []
  | [part] => part
  | part :: rest => part ++ separator ++ join separator rest

/-- Every occurrence of `pattern`, taken from the left without overlap, becomes `value`. -/
def replaceAll (t pattern value : Text) : Text :=
  if pattern.isEmpty then t else go 0 t
where
  /-- Reads on after dropping `skip` code points of an occurrence that was just replaced. -/
  go : Nat → Text → Text
    | _, [] => []
    | skip + 1, _ :: rest => go skip rest
    | 0, c :: rest =>
      if pattern.isPrefixOf (c :: rest) then
        value ++ go (pattern.length - 1) rest
      else
        c :: go 0 rest

def startsWith (t start : Text) : Bool :=
  start.isPrefixOf t

def holds (t : Text) (c : Char) : Bool :=
  t.any (· == .scalar c)

/-- The maximal parts of a text that hold no `separator`, in order; there is always at least one. -/
def splitOn (separator : Codepoint) : Text → List Text
  | [] => [[]]
  | c :: rest =>
    if c = separator then
      [] :: splitOn separator rest
    else
      match splitOn separator rest with
      | [] => [[c]]
      | part :: parts => (c :: part) :: parts

/-- The text up to the first `separator`, and what follows it when there is one. -/
def cutAt (separator : Codepoint) : Text → Text × Option Text
  | [] => ([], none)
  | c :: rest =>
    if c = separator then
      ([], some rest)
    else
      let (front, back) := cutAt separator rest
      (c :: front, back)

/-- A text without the code points of class `drop` at its two ends. -/
def strip (drop : Codepoint → Bool) (t : Text) : Text :=
  ((t.dropWhile drop).reverse.dropWhile drop).reverse

def toLowerAscii (t : Text) : Text :=
  t.map fun
    | .scalar c => .scalar c.toLower
    | c => c

end Text

end SchemaGraft
