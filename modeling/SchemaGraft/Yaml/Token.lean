import SchemaGraft.Calendar

/-!
# YAML tokens

The tokens that the characters of a YAML text form, and what can go wrong while such a text is read.
-/

namespace SchemaGraft

namespace Yaml

inductive Fault where
  -- the text breaks a rule of the format, or uses a tag that has no meaning here
  | malformed
  | calendar (fault : CalendarFault)
  | longInteger (digits : Nat)
  | badInteger (base : Nat) (text : Text)
  | badNumber (text : Text)
  -- a part of a number in base 60 has a weight out of reach
  | hugeWeight
  | badCodepoint
  -- an escape denotes a number of more than 31 bits
  | hugeCodepoint
  | badBool
  | emptyNumber
  | badTimestamp
  -- a mapping is tagged as a time
  | mappingAsTime
  | tooDeep
deriving DecidableEq, Repr

/-- A token.  Scalars hold their text after folding and escapes. -/
inductive Token where
  | version (major : Nat)
  -- a directive that gives a tag handle its meaning
  | handle (name start : List Char)
  | directive
  | documentStart
  | documentEnd
  | blockSequenceStart
  | blockMappingStart
  | blockEnd
  | flowSequenceStart
  | flowSequenceEnd
  | flowMappingStart
  | flowMappingEnd
  | key
  | value
  | blockEntry
  | flowEntry
  | reference (name : List Char)
  -- the name of the node that follows
  | anchor (name : List Char)
  -- the tag of the node that follows: a suffix, after a handle or alone
  | tag (handle : Option (List Char)) (suffix : List Char)
  -- a scalar, with or without quotation marks
  | scalar (text : Text) (isPlain : Bool)
  -- the place where the characters stop to form tokens
  | broken (fault : Fault)
deriving DecidableEq, Repr

end Yaml

end SchemaGraft
