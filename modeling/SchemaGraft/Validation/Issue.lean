import SchemaGraft.Text.Digits

/-!
# Validation issues

What checking a document finds wrong.  A check does not stop at the first issue: parts are checked on
their own and their issues are listed in the order of the parts.

## Architecture

- `Issue` is one finding, with its place in the document.
- `Checked α` is a value, or the issues that stand in its way.
- `Checked.both` and `Checked.each` join checks of parts.
-/

namespace SchemaGraft

/-- One step on the way to a place in a document. -/
inductive Step where
  -- into the member with this name
  | field (name : Text)
  -- to the item with this index
  | index (n : Int)
deriving DecidableEq, Repr

inductive IssueKind where
  | missing
  | textType
  -- a text was expected, but it cannot be encoded
  | textUnicode
  | listType
  -- a sequence was expected
  | tupleType
  | objectType
  -- a record of the named kind was expected
  | recordType (record : String)
  | integerType
  -- a text is no integer
  | integerParsing
  -- a text is an integer of too many digits, or a number is too large to be one
  | integerParsingSize
  | integerFromFloat
  | finiteNumber
  | boolType
  -- a text or number stands for no truth value
  | boolParsing
  | extraForbidden
  | invalidKey
  | duplicateInstruction (name : Text)
deriving DecidableEq, Repr

namespace IssueKind

def code : IssueKind → String
  | .missing => "missing"
  | .textType => "string_type"
  | .textUnicode => "string_unicode"
  | .listType => "list_type"
  | .tupleType => "tuple_type"
  | .objectType => "dict_type"
  | .recordType _ => "model_type"
  | .integerType => "int_type"
  | .integerParsing => "int_parsing"
  | .integerParsingSize => "int_parsing_size"
  | .integerFromFloat => "int_from_float"
  | .finiteNumber => "finite_number"
  | .boolType => "bool_type"
  | .boolParsing => "bool_parsing"
  | .extraForbidden => "extra_forbidden"
  | .invalidKey => "invalid_key"
  | .duplicateInstruction _ => "value_error"

def message : IssueKind → Text
  | .missing => "Field required"
  | .textType => "Input should be a valid string"
  | .textUnicode => "Input should be a valid string, unable to parse raw data as a unicode string"
  | .listType => "Input should be a valid list"
  | .tupleType => "Input should be a valid tuple"
  | .objectType => "Input should be a valid dictionary"
  | .recordType r => "Input should be a valid dictionary or instance of " ++ Text.ofString r
  | .integerType => "Input should be a valid integer"
  | .integerParsing => "Input should be a valid integer, unable to parse string as an integer"
  | .integerParsingSize => "Unable to parse input string as an integer, exceeded maximum size"
  | .integerFromFloat => "Input should be a valid integer, got a number with a fractional part"
  | .finiteNumber => "Input should be a finite number"
  | .boolType => "Input should be a valid boolean"
  | .boolParsing => "Input should be a valid boolean, unable to interpret input"
  | .extraForbidden => "Extra inputs are not permitted"
  | .invalidKey => "Keys should be strings"
  | .duplicateInstruction n => "Value error, duplicate instruction name '" ++ n ++ "'"

end IssueKind

structure Issue where
  -- the way to the place, from the outside in
  place : List Step
  kind : IssueKind
deriving DecidableEq, Repr

/-- A checked value, or the issues that were found instead. -/
abbrev Checked (α : Type) := Except (List Issue) α

namespace Checked

/-- A single issue at the place that is being checked. -/
def fail {α : Type} (kind : IssueKind) : Checked α :=
  .error [⟨[], kind⟩]

/-- The outcome of checking the part that `step` leads to. -/
def under {α : Type} (step : Step) : Checked α → Checked α
  | .ok a => .ok a
  | .error issues => .error (issues.map fun i => { i with place := step :: i.place })

/-- Checks two parts and lists the issues of both. -/
def both {α β : Type} : Checked α → Checked β → Checked (α × β)
  | .ok a, .ok b => .ok (a, b)
  | .ok _, .error js => .error js
  | .error is, .ok _ => .error is
  | .error is, .error js => .error (is ++ js)

/-- Checks the items of a list, the first of which has index `i`. -/
def eachFrom {α β : Type} (check : α → Checked β) (i : Nat) : List α → Checked (List β)
  | [] => .ok []
  | a :: rest => (both (under (.index i) (check a)) (eachFrom check (i + 1) rest)).map
      fun p => p.1 :: p.2

def each {α β : Type} (check : α → Checked β) (items : List α) : Checked (List β) :=
  eachFrom check 0 items

end Checked

end SchemaGraft
