import SchemaGraft.Schema.Basic

/-!
# Patch tables

Instructions that read their payload as one composite value have no arguments in an extracted schema.
A patch table names such instructions and the argument that each of them lacks.

## Architecture

- `PatchRule` gives one argument to the instructions of several names; aliases are old spellings that
  are still matched but need not occur.
- `PatchTable` is a list of rules; `PatchTable.owners` says which rules claim a name, and
  `PatchTable.conflict?` is the first name that two rules claim.
- `PatchTable.ruleFor` looks a rule up.
-/

namespace SchemaGraft

/-- A rule: the argument that instructions of the given names lack. -/
structure PatchRule where
  -- the names that the schema is expected to have
  names : List Text
  -- the argument to append
  append : Argument
  -- other names that the rule matches
  aliases : List Text := []

namespace PatchRule

def allNames (r : PatchRule) : List Text :=
  r.names ++ r.aliases

def claims (r : PatchRule) (name : Text) : Bool :=
  r.allNames.contains name

def same (r s : PatchRule) : Bool :=
  r.names == s.names && r.append.same s.append && r.aliases == s.aliases

end PatchRule

structure PatchTable where
  version : Text
  program : Option Text := none
  rules : List PatchRule := []

structure Ambiguity where
  name : Text
  -- the places of rules in their table
  rules : List Nat
deriving DecidableEq, Repr

/-- For each name the places of the rules that match it; names come in the order in which they were noted. -/
abbrev Owners := List (Text × List Nat)

namespace Owners

/-- Notes that the rule at a place matches a name.  A rule that lists the name twice is noted once. -/
def note (found : Owners) (place : Nat) (name : Text) : Owners :=
  match found with
  | [] => [(name, [place])]
  | (n, places) :: rest =>
    if n = name then
      (n, if places.contains place then places else places ++ [place]) :: rest
    else
      (n, places) :: note rest place name

end Owners

namespace PatchTable

/-- The names that the schema is expected to have, rule by rule. -/
def names (t : PatchTable) : List Text :=
  t.rules.flatMap (·.names)

def claimants (t : PatchTable) (name : Text) : List Nat :=
  go 0 t.rules
where
  /-- The places of matching rules, the first of which has place `i`. -/
  go (i : Nat) : List PatchRule → List Nat
    | [] => []
    | r :: rest => if r.claims name then i :: go (i + 1) rest else go (i + 1) rest

/-- Each name that a rule lists, rule by rule and expected names before aliases, with the place of the rule. -/
def listedNames (t : PatchTable) : List (Nat × Text) :=
  t.rules.zipIdx.flatMap fun (r, place) => r.allNames.map (place, ·)

/-- The owners of all names that rules list. -/
def owners (t : PatchTable) : Owners :=
  t.listedNames.foldl (fun found (place, name) => found.note place name) []

/-- The first name that several rules match. -/
def conflict? (t : PatchTable) : Option Ambiguity :=
  t.owners.findSome? fun (name, places) => if 1 < places.length then some ⟨name, places⟩ else none

/-- The place at which looking for the rule at `place` ends: that of the first rule that is equal to it, and
its own place at the latest. -/
def firstLike (t : PatchTable) (place : Nat) : Nat :=
  match t.rules[place]? with
  | some r => min place (t.rules.findIdx fun s => s.same r)
  | none => place

/-- The rule that matches a name.  When several do, the answer lists for each the place of the first rule
that is equal to it. -/
def ruleFor (t : PatchTable) (name : Text) : Except Ambiguity (Option PatchRule) :=
  match t.rules.filter (·.claims name) with
  | [] => .ok none
  | [r] => .ok (some r)
  | _ => .error ⟨name, (t.claimants name).map t.firstLike⟩

end PatchTable

end SchemaGraft
