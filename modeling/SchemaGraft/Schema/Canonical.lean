import SchemaGraft.Json.Writer
import SchemaGraft.Schema.Basic
import SchemaGraft.Value.Plain

/-!
# The canonical text of a schema

A schema is written as the JSON object of exactly the members that were given, in canonical form.
-/

namespace SchemaGraft

/-- The members of a free mapping, in JSON form.  A lone surrogate in one of their own names is replaced;
in a name further inside it has no form. -/
def plainEntries (ms : List (Text × Value)) : Except PlainFault (List (Text × Json)) := do
  return Json.ofPairs (← ms.mapM fun m => return (m.1.asName, ← m.2.plain))

/-- Members beyond the declared ones, in JSON form. -/
def plainExtras (ms : List (Text × Value)) : Except PlainFault (List (Text × Json)) :=
  ms.mapM fun m => return (m.1, ← m.2.plain)

def plainOptional : Option Text → Json
  | none => .null
  | some t => .text t

/-- A type in JSON form.  When a description has no form as a free mapping, it is tried as any value, and
what is wrong with it as such is the fault. -/
def TypeRef.plain : TypeRef → Except PlainFault Json
  | .named n => return .text n
  | .composite ms =>
    match plainEntries ms with
    | .ok entries => return .object entries
    | .error _ => (TypeRef.composite ms).toValue.plain

def declared (name : String) (v : Json) : List (Text × Json) :=
  [(Text.ofString name, v)]

def plainGiven {α : Type} (name : String) (form : α → Except PlainFault Json) :
    Option α → Except PlainFault (List (Text × Json))
  | none => return []
  | some a => return declared name (← form a)

def plainList {α : Type} (form : α → Except PlainFault Json) (items : List α) :
    Except PlainFault Json :=
  return .list (← items.mapM form)

def Argument.plain (a : Argument) : Except PlainFault Json := do
  let type ← a.type.plain
  let extra ← plainExtras a.extra
  return .object (declared "name" (.text a.name) ++ declared "type" type ++ extra)

def Instruction.plain (ix : Instruction) : Except PlainFault Json := do
  let args ← plainGiven "args" (plainList Argument.plain) ix.args
  let extra ← plainExtras ix.extra
  return .object (declared "name" (.text ix.name) ++ args ++ extra)

def TypeDef.plain (t : TypeDef) : Except PlainFault Json := do
  let extra ← plainExtras t.extra
  return .object (declared "name" (.text t.name) ++ extra)

def plainCode : Option Int → Except PlainFault Json
  | none => return .null
  | some n => Scalar.plain (.int n)

def ErrorDef.plain (e : ErrorDef) : Except PlainFault Json := do
  let code ← plainGiven "code" plainCode e.code
  let extra ← plainExtras e.extra
  return .object (code ++ declared "name" (.text e.name) ++ extra)

def plainAccount (ms : List (Text × Value)) : Except PlainFault Json :=
  return .object (← plainEntries ms)

def Schema.plain (s : Schema) : Except PlainFault Json := do
  let version ← plainGiven "version" (fun v => return plainOptional v) s.version
  let name ← plainGiven "name" (fun v => return plainOptional v) s.name
  let instructions ← plainList Instruction.plain s.instructions
  let types ← plainList TypeDef.plain s.types
  let accounts ← plainGiven "accounts" (plainList plainAccount) s.accounts
  let errors ← plainGiven "errors" (plainList ErrorDef.plain) s.errors
  let extra ← plainExtras s.extra
  return .object (version ++ name ++ declared "instructions" instructions ++
    declared "types" types ++ accounts ++ errors ++ extra)

def Schema.canonical (s : Schema) : Except PlainFault Text :=
  return (← s.plain).canonical

end SchemaGraft
