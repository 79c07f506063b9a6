import SchemaGraft.Text.Digits

/-!
# UTF-8

Encoding of texts, and decoding of byte sequences, whole or piece by piece.

## Architecture

- `Utf8.State` and `Utf8.step` are a machine that reads one byte at a time; what it holds back is the
  beginning of a character whose end has not come yet.
- `Utf8.decode` runs the machine and stops at the first ill-formed part, which it reports.
- `Utf8.decodeLossy` runs the machine and puts `U+FFFD` in place of every ill-formed part;
  `Utf8.feed` does the same for one piece of a longer sequence.
- `Utf8.encode` refuses lone surrogates, which have no encoding; `Utf8.encodePath` takes those for bytes
  that stand for a byte which is part of no character.
-/

namespace SchemaGraft

/-- A sequence of bytes, as files and pipes hold them. -/
abbrev Bytes := List UInt8

namespace Utf8

/-! ## The machine -/

/-- What the machine has read of the character at hand. -/
structure Partial where
  -- the bytes read so far, at least one
  read : Bytes
  -- the bits that they carry
  bits : Nat
  -- the number of bytes still missing after the next one
  missing : Nat
  -- the least value the next byte may have
  low : UInt8
  -- the greatest value the next byte may have
  high : UInt8
deriving DecidableEq, Repr

/-- The bytes that open a surrogate, which has no encoding: the second one cannot continue the first. -/
def Partial.opensSurrogate (p : Partial) (b : UInt8) : Bool :=
  p.read == [0xED] && 0xA0 ≤ b && b ≤ 0xBF

inductive State where
  | between
  | inside (p : Partial)
  /-- After the first two of the three bytes of a surrogate.  They are ill-formed, and held back until
  something follows them. -/
  | surrogate
deriving DecidableEq, Repr

/-- What reading a byte outside any character leads to. -/
inductive Opening where
  -- the byte is a character of its own
  | whole (c : Char)
  -- the byte opens a character
  | opens (p : Partial)
  -- no character starts with this byte
  | illegal
deriving DecidableEq, Repr

/-- How a byte that stands at the start of a character is read. -/
def openWith (b : UInt8) : Opening :=
  if b < 0x80 then .whole (Char.ofNat b.toNat)
  else if b < 0xC2 then .illegal
  else if b < 0xE0 then .opens ⟨[b], b.toNat - 0xC0, 0, 0x80, 0xBF⟩
  else if b = 0xE0 then .opens ⟨[b], 0, 1, 0xA0, 0xBF⟩
  else if b = 0xED then .opens ⟨[b], 0xD, 1, 0x80, 0x9F⟩
  else if b < 0xF0 then .opens ⟨[b], b.toNat - 0xE0, 1, 0x80, 0xBF⟩
  else if b = 0xF0 then .opens ⟨[b], 0, 2, 0x90, 0xBF⟩
  else if b < 0xF4 then .opens ⟨[b], b.toNat - 0xF0, 2, 0x80, 0xBF⟩
  else if b = 0xF4 then .opens ⟨[b], 4, 2, 0x80, 0x8F⟩
  else .illegal

/-- What happens when a byte comes while a character is open. -/
inductive Continuation where
  | done (c : Char)
  | more (p : Partial)
  -- the byte cannot continue the character
  | broken
deriving DecidableEq, Repr

def Partial.next (p : Partial) (b : UInt8) : Continuation :=
  if p.low ≤ b ∧ b ≤ p.high then
    let bits := p.bits * 64 + (b.toNat - 0x80)
    match p.missing with
    | 0 => .done (Char.ofNat bits)
    | n + 1 => .more ⟨p.read ++ [b], bits, n, 0x80, 0xBF⟩
  else
    .broken

/-! ## Lossy decoding -/

/-- The character that stands for an ill-formed part. -/
def replacement : Char :=
  Char.ofNat 0xFFFD

/-- Reads a byte between characters; the second component is the text that becomes known. -/
def start (b : UInt8) : State × List Char :=
  match openWith b with
  | .whole c => (.between, [c])
  | .opens p => (.inside p, [])
  | .illegal => (.between, [replacement])

/-- Reads a byte: an open character that it cannot continue is replaced, and the byte starts anew. -/
def step (s : State) (b : UInt8) : State × List Char :=
  match s with
  | .between => start b
  | .inside p =>
    match p.next b with
    | .done c => (.between, [c])
    | .more p => (.inside p, [])
    | .broken =>
      if p.opensSurrogate b then
        (.surrogate, [])
      else
        let (s, out) := start b
        (s, replacement :: out)
  | .surrogate =>
    let (s, out) := start b
    (s, replacement :: replacement :: out)

/-- Reads a piece of a byte sequence: the state after it and the text that becomes known. -/
def feed (s : State) : Bytes → State × List Char
  | [] => (s, [])
  | b :: rest =>
    let (s, out) := step s b
    let (s, tail) := feed s rest
    (s, out ++ tail)

/-- The text that the end of the sequence makes known: an open character is replaced. -/
def finish : State → List Char
  | .between => []
  | .inside _ => [replacement]
  | .surrogate => [replacement, replacement]

/-- Decodes a whole byte sequence, with one `U+FFFD` for every ill-formed part. -/
def decodeLossy (bs : Bytes) : List Char :=
  let (s, out) := feed .between bs
  out ++ finish s

/-! ## Strict decoding -/

inductive DecodeCause where
  -- no character starts with the byte
  | invalidStart
  -- the byte after the part cannot continue it
  | invalidContinuation
  -- the sequence ends inside a character
  | unexpectedEnd
  -- the part is ill-formed, with nothing said about how
  | unspecified
deriving DecidableEq, Repr

/-- The first ill-formed part of a byte sequence: its place and its bytes. -/
structure DecodeFault where
  -- the index of the first byte of the part
  position : Nat
  -- the bytes of the part, at least one
  bytes : Bytes
  cause : DecodeCause
deriving DecidableEq, Repr

/-- Decodes the bytes from index `position` on, with the character `s` open. -/
def decodeFrom (position : Nat) (s : Option Partial) : Bytes → Except DecodeFault (List Char)
  | [] =>
    match s with
    | none => .ok []
    | some p => .error ⟨position - p.read.length, p.read, .unexpectedEnd⟩
  | b :: rest =>
    match s with
    | none =>
      match openWith b with
      | .whole c => (decodeFrom (position + 1) none rest).map (c :: ·)
      | .opens p => decodeFrom (position + 1) (some p) rest
      | .illegal => .error ⟨position, [b], .invalidStart⟩
    | some p =>
      match p.next b with
      | .done c => (decodeFrom (position + 1) none rest).map (c :: ·)
      | .more p => decodeFrom (position + 1) (some p) rest
      | .broken => .error ⟨position - p.read.length, p.read, .invalidContinuation⟩

/-- The characters a byte sequence encodes, or its first ill-formed part. -/
def decode (bs : Bytes) : Except DecodeFault (List Char) :=
  decodeFrom 0 none bs

def DecodeCause.message : DecodeCause → String
  | .invalidStart => "invalid start byte"
  | .invalidContinuation => "invalid continuation byte"
  | .unexpectedEnd => "unexpected end of data"
  | .unspecified => "invalid utf-8"

/-- The wording of a decoding fault: a single byte is shown, several are only located. -/
def DecodeFault.message (f : DecodeFault) : Text :=
  match f.bytes with
  | [b] =>
    "'utf-8' codec can't decode byte 0x" ++ Text.ofChars (Digits.hexadecimal 2 b.toNat) ++
      " in position " ++ Text.ofNat f.position ++ ": " ++ f.cause.message
  | bs =>
    "'utf-8' codec can't decode bytes in position " ++ Text.ofNat f.position ++ "-" ++
      Text.ofNat (f.position + bs.length - 1) ++ ": " ++ f.cause.message

/-! ## Encoding -/

def encodeChar (c : Char) : Bytes :=
  let n := c.toNat
  if n < 0x80 then [n.toUInt8]
  else if n < 0x800 then [(0xC0 + n / 64).toUInt8, (0x80 + n % 64).toUInt8]
  else if n < 0x10000 then
    [(0xE0 + n / 4096).toUInt8, (0x80 + n / 64 % 64).toUInt8, (0x80 + n % 64).toUInt8]
  else
    [(0xF0 + n / 262144).toUInt8, (0x80 + n / 4096 % 64).toUInt8, (0x80 + n / 64 % 64).toUInt8,
      (0x80 + n % 64).toUInt8]

def encodeChars (cs : List Char) : Bytes :=
  cs.flatMap encodeChar

/-- The first run of lone surrogates of a text: its place and its members. -/
structure EncodeFault where
  -- the index of the first surrogate of the run
  position : Nat
  -- the run, at least one code point long
  run : Text
deriving DecidableEq, Repr

/-- Encodes a text whose first code point has index `position`. -/
def encodeFrom (position : Nat) : Text → Except EncodeFault Bytes
  | [] => .ok []
  | .scalar c :: rest => (encodeFrom (position + 1) rest).map (encodeChar c ++ ·)
  | .surrogate o :: rest =>
    .error ⟨position, .surrogate o :: rest.takeWhile Codepoint.isSurrogate⟩

/-- The UTF-8 form of a text, or its first run of lone surrogates. -/
def encode (t : Text) : Except EncodeFault Bytes :=
  encodeFrom 0 t

/-- The byte from `0x80` on that a surrogate from `U+DC80` to `U+DCFF` stands for in the name of a file. -/
def escapedByte? (offset : Fin 2048) : Option UInt8 :=
  if 0x480 ≤ offset.val ∧ offset.val < 0x500 then some (offset.val - 0x400).toUInt8 else none

/-- Encodes the rest of a path from index `position` on. -/
def encodePathFrom (position : Nat) : Text → Except EncodeFault Bytes
  | [] => .ok []
  | .scalar c :: rest => (encodePathFrom (position + 1) rest).map (encodeChar c ++ ·)
  | .surrogate o :: rest =>
    match escapedByte? o with
    | some b => (encodePathFrom (position + 1) rest).map (b :: ·)
    | none => .error ⟨position, .surrogate o :: rest.takeWhile Codepoint.isSurrogate⟩

/-- The bytes by which the file system knows a path, or its first run of lone surrogates that stand for no
bytes. -/
def encodePath (t : Text) : Except EncodeFault Bytes :=
  encodePathFrom 0 t

def EncodeFault.message (f : EncodeFault) : Text :=
  match f.run with
  | [c] =>
    "'utf-8' codec can't encode character '\\u" ++ Text.ofChars (Digits.hexadecimal 4 c.value) ++
      "' in position " ++ Text.ofNat f.position ++ ": surrogates not allowed"
  | run =>
    "'utf-8' codec can't encode characters in position " ++ Text.ofNat f.position ++ "-" ++
      Text.ofNat (f.position + run.length - 1) ++ ": surrogates not allowed"

end Utf8

end SchemaGraft
