import SchemaGraft.Patch.Copy
import SchemaGraft.Patch.Coverage
import SchemaGraft.Patch.Notice

/-!
# Patching

A patch appends to each instruction that a rule matches the argument of the rule, unless the instruction
has an argument of that name.  Patching twice is therefore the same as patching once.  It works on copies,
and stops where something is nested too deeply to be copied.
-/

namespace SchemaGraft

/-- The instruction with an argument at the end of its list. -/
def Instruction.push (ix : Instruction) (a : Argument) : Instruction :=
  { ix with args := some (ix.arguments ++ [a]) }

namespace PatchRule

/-- An instruction that the rule matches, patched, and what there is to note about it. -/
def apply (rule : PatchRule) (ix : Instruction) : Instruction × List Notice :=
  match ix.standing rule.append with
  | .lacking => (ix.push rule.append, [])
  | .present => (ix, [])
  | .conflicting found =>
    (ix, [.leftUnchanged ix.name found.name found.type rule.append.type])

/-- Can a patch of the instruction copy what it needs of the rule?  It needs the argument if the
instruction lacks it. -/
def copies (rule : PatchRule) (ix : Instruction) : Bool :=
  match ix.standing rule.append with
  | .lacking => rule.append.copyDepth ≤ maxCopyDepth
  | _ => true

end PatchRule

/-- Why a schema is not patched. -/
inductive ApplyFault where
  -- several rules match an instruction
  | ambiguous (ambiguity : Ambiguity)
  -- the schema or an argument to append cannot be copied
  | tooDeep
deriving DecidableEq, Repr

inductive PatchFault where
  | refused (fault : ApplyFault)
  | drift (missing : List Text)
deriving DecidableEq, Repr

namespace PatchTable

/-- Patches an instruction, and notes what there is to note. -/
def applyTo (t : PatchTable) (ix : Instruction) : Except ApplyFault (Instruction × List Notice) :=
  match t.ruleFor ix.name with
  | .error a => .error (.ambiguous a)
  | .ok none => .ok (ix, [])
  | .ok (some rule) => if rule.copies ix then .ok (rule.apply ix) else .error .tooDeep

/-- Patches instructions in order.  The notices come first: those of the instructions in front of one that
cannot be patched are made even though the patch fails. -/
def applyAll (t : PatchTable) : List Instruction → List Notice × Except ApplyFault (List Instruction)
  | [] => ([], .ok [])
  | ix :: rest =>
    match t.applyTo ix with
    | .error f => ([], .error f)
    | .ok (ix, notices) =>
      let (more, out) := applyAll t rest
      (notices ++ more, out.map (ix :: ·))

def apply (t : PatchTable) (s : Schema) : List Notice × Except ApplyFault Schema :=
  if s.copyDepth ≤ maxCopyDepth then
    let (notices, out) := t.applyAll s.instructions
    (notices, out.map fun ixs => { s with instructions := ixs })
  else
    ([], .error .tooDeep)

/-- Patches a schema and reports on it.  A strict patch is refused when the schema lacks an instruction
that the table expects; a lenient one only notes it. -/
def patch (t : PatchTable) (strict : Bool) (s : Schema) :
    List Notice × Except PatchFault (Schema × Report) :=
  match t.coverage s with
  | .error a => ([], .error (.refused (.ambiguous a)))
  | .ok report =>
    if strict && !report.missing.isEmpty then
      ([], .error (.drift report.missing))
    else
      let before := report.missing.map (Notice.missingInstruction t.version) ++
        report.unknownTypes.map (Notice.unknownType t.version)
      match t.apply s with
      | (notices, .error f) => (before ++ notices, .error (.refused f))
      | (notices, .ok patched) =>
        let done := Notice.patched t.version report.patched.length report.alreadyPresent.length
        (before ++ notices ++ [done], .ok (patched, report))

end PatchTable

end SchemaGraft
