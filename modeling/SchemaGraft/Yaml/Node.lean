import SchemaGraft.Yaml.Tag
import SchemaGraft.Yaml.Token

/-!
# YAML nodes

The tree of scalars, sequences and mappings that tokens form, with the tag of every node known and every
reference replaced by the node it refers to.

## Architecture

- `Node` is the tree; a reference from inside a collection back to it becomes `Node.cycle`.
- `Composer` is the state of reading: the tokens that are left, the tag handles and the anchors.
- `Node.ofTokens?` reads a whole stream, which may hold one document or none.
-/

namespace SchemaGraft

namespace Yaml

inductive Node where
  | scalar (tag : Tag) (text : Text)
  | sequence (tag : Tag) (items : List Node)
  -- a mapping, with all its entries in order
  | mapping (tag : Tag) (entries : List (Node × Node))
  -- a reference from inside a collection back to it
  | cycle (isMapping : Bool)

instance : Inhabited Node := ⟨.scalar .null []⟩

inductive Anchored where
  | done (node : Node)
  -- a collection that is still being read
  | inside (isMapping : Bool)

structure Composer where
  -- the tokens that are left
  tokens : List Token
  -- the meaning of tag handles
  handles : List (List Char × List Char) := []
  anchors : List (List Char × Anchored) := []

abbrev Compose (α : Type) := StateT Composer (Except Fault) α

namespace Compose

def refuse {α : Type} : Compose α :=
  throw .malformed

def peek? : Compose (Option Token) := do
  match (← get).tokens with
  | .broken f :: _ => throw f
  | t :: _ => return some t
  | [] => return none

def skip : Compose Unit :=
  modify fun c => { c with tokens := c.tokens.tail }

def isNext (ts : List Token) : Compose Bool := do
  match ← peek? with
  | some t => return ts.contains t
  | none => return false

/-- Drops the next token if it is the given one; says whether it was. -/
def accept (t : Token) : Compose Bool := do
  if ← isNext [t] then
    skip
    return true
  else
    return false

/-- Drops the next token, which must be the given one. -/
def expect (t : Token) : Compose Unit := do
  if !(← accept t) then refuse

/-! ## Tags and anchors -/

/-- The meaning of tag handles that no directive gives. -/
def defaultHandles : List (List Char × List Char) :=
  [(['!'], ['!']), (['!', '!'], "tag:yaml.org,2002:".toList)]

def tagName (handle : Option (List Char)) (suffix : List Char) : Compose (List Char) := do
  match handle with
  | none => return suffix
  | some h =>
    match (← get).handles.find? (·.1 == h) with
    | some (_, start) => return start ++ suffix
    | none => refuse

/-- Reads the anchor and the tag of a node, in either order. -/
def properties : Compose (Option (List Char) × Option (List Char)) := do
  match ← peek? with
  | some (.anchor a) =>
    skip
    match ← peek? with
    | some (.tag h s) => skip; return (some a, some (← tagName h s))
    | _ => return (some a, none)
  | some (.tag h s) =>
    skip
    match ← peek? with
    | some (.anchor a) => skip; return (some a, some (← tagName h s))
    | _ => return (none, some (← tagName h s))
  | _ => return (none, none)

/-- Gives an anchor its meaning; in one document no name may be given twice. -/
def define (anchor : Option (List Char)) (meaning : Anchored) : Compose Unit := do
  match anchor with
  | none => return
  | some a =>
    if (← get).anchors.any (·.1 == a) then refuse
    modify fun c => { c with anchors := (a, meaning) :: c.anchors }

/-- Gives an anchor the node whose reading has ended. -/
def complete (anchor : Option (List Char)) (node : Node) : Compose Node := do
  match anchor with
  | none => return node
  | some a =>
    modify fun c => { c with
      anchors := c.anchors.map fun b => if b.1 == a then (a, .done node) else b }
    return node

def resolve (name : List Char) : Compose Node := do
  match (← get).anchors.find? (·.1 == name) with
  | some (_, .done node) => return node
  | some (_, .inside isMapping) => return .cycle isMapping
  | none => refuse

/-- The tag of a scalar: given by name, or by its form when it is plain or has the tag `!`. -/
def scalarTag (name : Option (List Char)) (text : Text) (isPlain : Bool) : Tag :=
  let byForm : Tag :=
    match text.toChars? with
    | some cs => Tag.ofForm cs
    | none => .text
  match name with
  | none => if isPlain then byForm else .text
  | some ['!'] => byForm
  | some n => Tag.ofName n

def collectionTag (name : Option (List Char)) (otherwise : Tag) : Tag :=
  match name with
  | none | some ['!'] => otherwise
  | some n => Tag.ofName n

/-- The node that stands where nothing is written. -/
def nothing : Node :=
  .scalar .null []

/-! ## Nodes -/

/-- The greatest number of collections that may be open at once.  How many there may be depends on the calls
that are open already; the number fits a document that is read directly. -/
def maxDepth : Nat := 480

/-- The scalar without text that an anchor or a tag alone makes. -/
def empty (anchor tag : Option (List Char)) : Compose Node := do
  if anchor.isNone && tag.isNone then
    refuse
  else
    let n := Node.scalar (scalarTag tag [] (tag.isNone || tag == some ['!'])) []
    define anchor (.done n)
    return n

mutual

/-- Reads a node.  `isBlock` allows block collections, `isValue` a block sequence that is not indented.
`depth` counts the levels that are left. -/
def node (fuel depth : Nat) (isBlock isValue : Bool) : Compose Node := do
  match fuel, depth with
  | 0, _ => refuse
  | _, 0 => throw .tooDeep
  | fuel + 1, depth + 1 =>
    if let some (.reference name) := ← peek? then
      skip
      resolve name
    else
      let (anchor, tag) ← properties
      match ← peek? with
      | some (.scalar text isPlain) =>
        skip
        let n := Node.scalar (scalarTag tag text isPlain) text
        define anchor (.done n)
        return n
      | some .flowSequenceStart =>
        skip
        define anchor (.inside false)
        let items ← flowItems fuel depth true
        complete anchor (.sequence (collectionTag tag .seq) items)
      | some .flowMappingStart =>
        skip
        define anchor (.inside true)
        let entries ← flowEntries fuel depth true
        complete anchor (.mapping (collectionTag tag .map) entries)
      | some .blockEntry =>
        if isValue then
          define anchor (.inside false)
          let items ← valueItems fuel depth
          complete anchor (.sequence (collectionTag tag .seq) items)
        else
          empty anchor tag
      | some .blockSequenceStart =>
        if isBlock then
          skip
          define anchor (.inside false)
          let items ← blockItems fuel depth
          complete anchor (.sequence (collectionTag tag .seq) items)
        else
          empty anchor tag
      | some .blockMappingStart =>
        if isBlock then
          skip
          define anchor (.inside true)
          let entries ← blockEntries fuel depth
          complete anchor (.mapping (collectionTag tag .map) entries)
        else
          empty anchor tag
      | _ => empty anchor tag
termination_by structural fuel

/-- Reads a node unless one of the given tokens, or none at all, comes next. -/
def nodeUnless (ends : List Token) (fuel depth : Nat) (isBlock isValue : Bool) : Compose Node := do
  match fuel with
  | 0 => refuse
  | fuel + 1 =>
    if ← isNext ends then return nothing else node fuel depth isBlock isValue
termination_by structural fuel

/-- Reads the items of a block sequence and its end. -/
def blockItems (fuel depth : Nat) : Compose (List Node) := do
  match fuel with
  | 0 => refuse
  | fuel + 1 =>
    if ← accept .blockEntry then
      let item ← nodeUnless [.blockEntry, .blockEnd] fuel depth true false
      return item :: (← blockItems fuel depth)
    else
      expect .blockEnd
      return []
termination_by structural fuel

/-- Reads the items of a block sequence that is not indented. -/
def valueItems (fuel depth : Nat) : Compose (List Node) := do
  match fuel with
  | 0 => refuse
  | fuel + 1 =>
    if ← accept .blockEntry then
      let item ← nodeUnless [.blockEntry, .key, .value, .blockEnd] fuel depth true false
      return item :: (← valueItems fuel depth)
    else
      return []
termination_by structural fuel

/-- Reads the entries of a block mapping and its end. -/
def blockEntries (fuel depth : Nat) : Compose (List (Node × Node)) := do
  match fuel with
  | 0 => refuse
  | fuel + 1 =>
    let ends : List Token := [.key, .value, .blockEnd]
    if ← isNext [.key, .value] then
      let key ←
        if ← accept .key then nodeUnless ends fuel depth true true else refuse
      let value ←
        if ← accept .value then nodeUnless ends fuel depth true true else pure nothing
      return (key, value) :: (← blockEntries fuel depth)
    else
      expect .blockEnd
      return []
termination_by structural fuel

/-- Reads the items of a flow sequence and its end. -/
def flowItems (fuel depth : Nat) (isFirst : Bool) : Compose (List Node) := do
  match fuel with
  | 0 => refuse
  | fuel + 1 =>
    if ← accept .flowSequenceEnd then
      return []
    if !isFirst then
      expect .flowEntry
    if ← accept .key then
      let key ← nodeUnless [.value, .flowEntry, .flowSequenceEnd] fuel depth false false
      let value ←
        if ← accept .value then nodeUnless [.flowEntry, .flowSequenceEnd] fuel depth false false
        else pure nothing
      return .mapping .map [(key, value)] :: (← flowItems fuel depth false)
    else if ← accept .flowSequenceEnd then
      return []
    else
      let item ← node fuel depth false false
      return item :: (← flowItems fuel depth false)
termination_by structural fuel

/-- Reads the entries of a flow mapping and its end. -/
def flowEntries (fuel depth : Nat) (isFirst : Bool) : Compose (List (Node × Node)) := do
  match fuel with
  | 0 => refuse
  | fuel + 1 =>
    if ← accept .flowMappingEnd then
      return []
    if !isFirst then
      expect .flowEntry
    if ← accept .key then
      let key ← nodeUnless [.value, .flowEntry, .flowMappingEnd] fuel depth false false
      let value ←
        if ← accept .value then nodeUnless [.flowEntry, .flowMappingEnd] fuel depth false false
        else pure nothing
      return (key, value) :: (← flowEntries fuel depth false)
    else if ← accept .flowMappingEnd then
      return []
    else
      let key ← node fuel depth false false
      return (key, nothing) :: (← flowEntries fuel depth false)
termination_by structural fuel

end

/-! ## Documents -/

def directives (fuel : Nat) (isVersioned : Bool) : Compose Unit := do
  match fuel with
  | 0 => return
  | fuel + 1 =>
    match ← peek? with
    | some (.version major) =>
      if isVersioned || major != 1 then refuse
      skip
      directives fuel true
    | some (.handle name start) =>
      if (← get).handles.any (·.1 == name) then refuse
      modify fun c => { c with handles := (name, start) :: c.handles }
      skip
      directives fuel isVersioned
    | some .directive =>
      skip
      directives fuel isVersioned
    | _ => return

def atDirective : Compose Bool := do
  match ← peek? with
  | some (.version _) | some (.handle ..) | some .directive => return true
  | _ => return false

def skipDocumentEnds (fuel : Nat) : Compose Unit := do
  match fuel with
  | 0 => return
  | fuel + 1 =>
    if ← accept .documentEnd then skipDocumentEnds fuel

def stream : Compose (Option Node) := do
  let length := (← get).tokens.length
  let fuel := 4 * length + 8
  if (← peek?).isNone then
    return none
  let isExplicit := (← atDirective) || (← isNext [.documentStart])
  if isExplicit then
    directives (length + 1) false
    expect .documentStart
  modify fun c => { c with handles := c.handles ++ defaultHandles }
  let isEmpty ←
    if isExplicit then
      pure ((← atDirective) || (← isNext [.documentStart, .documentEnd]) || (← peek?).isNone)
    else
      pure false
  let root ← if isEmpty then pure nothing else node fuel maxDepth true false
  skipDocumentEnds (length + 1)
  if (← peek?).isSome then refuse
  return some root

end Compose

/-- The root of the only document of a stream of tokens; a stream may hold no document. -/
def Node.ofTokens? (tokens : List Token) : Except Fault (Option Node) :=
  (Compose.stream.run { tokens }).map (·.1)

end Yaml

end SchemaGraft
