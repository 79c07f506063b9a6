import SchemaGraft.Text.Utf8
import SchemaGraft.Yaml.Token

/-!
# From characters to tokens

Block structure follows from indentation, so the lexer keeps a stack of the columns in which open
collections started, and adds the tokens that open and close them.  A mapping key is only known when
its colon comes; until then the place where a key may have started is kept as a candidate.

## Architecture

- `Lexer` is the state: the characters that are left with the place of the first of them, the
  indentation, the candidates, and the tokens so far.
- `fetch` adds the next token and those that its place implies.
- `Token.scan` runs the lexer to the end of a text.  A token is given out once no candidate lies in front of
  it, so that of several faults the one counts that a reader of the tokens comes to first.
-/

namespace SchemaGraft

namespace Yaml

/-! ## Character classes -/

def isBreak (c : Char) : Bool :=
  c == '\n' || c == '\r' || c == '\x85' || c == '\u2028' || c == '\u2029'

/-- Is there no character, or one that ends a line? -/
def endsLine : Option Char → Bool
  | none => true
  | some c => isBreak c

/-- Is there no character, or a blank, or one that ends a line? -/
def endsWord (c : Option Char) : Bool :=
  endsLine c || c == some ' '

/-- Like `endsWord`, with the tab among the blanks. -/
def endsToken (c : Option Char) : Bool :=
  endsWord c || c == some '\t'

/-- The characters of the names of directives, anchors and tag handles. -/
def isNameChar (c : Char) : Bool :=
  ('0' ≤ c && c ≤ '9') || ('A' ≤ c && c ≤ 'Z') || ('a' ≤ c && c ≤ 'z') || c == '-' || c == '_'

def isTagChar (c : Char) : Bool :=
  isNameChar c || ";/?:@&=+$,.!~*'()[]%".toList.contains c

def isAllowed (c : Char) : Bool :=
  let n := c.toNat
  n == 0x9 || n == 0xA || n == 0xD || (0x20 ≤ n && n ≤ 0x7E) || n == 0x85 ||
    (0xA0 ≤ n && n ≤ 0xFFFD) || 0x10000 ≤ n

/-! ## State -/

/-- A place where a mapping key may have started. -/
structure Candidate where
  -- the flow level of the place
  level : Nat
  -- the number of tokens in front of it
  token : Nat
  -- must a key start here?
  required : Bool
  -- the number of characters in front of it
  index : Nat
  line : Nat
  column : Nat

structure Lexer where
  rest : List Char
  -- the number of characters read
  index : Nat := 0
  line : Nat := 0
  column : Nat := 0
  -- the number of open flow collections
  flow : Nat := 0
  -- the column of the innermost open block collection, or `-1`
  indent : Int := -1
  -- the columns of the block collections around it
  indents : List Int := []
  -- may a mapping key start here?
  allowKey : Bool := true
  -- the candidates, at most one for each flow level
  candidates : List Candidate := []
  tokens : Array Token := #[]

abbrev Scan (α : Type) := StateT Lexer (Except Fault) α

namespace Lexer

def peek (l : Lexer) (n : Nat := 0) : Option Char :=
  l.rest[n]?

def forward (n : Nat) (l : Lexer) : Lexer :=
  match n, l.rest with
  | 0, _ | _, [] => l
  | n + 1, c :: rest =>
    let l := { l with rest, index := l.index + 1 }
    forward n <|
      if isBreak c then { l with line := l.line + 1, column := 0 }
      else if c = '\ufeff' then l
      else { l with column := l.column + 1 }

/-- Do the next characters spell a document mark, and nothing longer? -/
def atMark (l : Lexer) (mark : String) : Bool :=
  mark.toList.isPrefixOf l.rest && endsToken (l.peek 3)

/-- Do the next characters spell either document mark? -/
def atDocumentMark (l : Lexer) : Bool :=
  l.atMark "---" || l.atMark "..."

def push (t : Token) (l : Lexer) : Lexer :=
  { l with tokens := l.tokens.push t }

end Lexer

open Lexer (forward push)

def refuse {α : Type} : Scan α :=
  throw .malformed

/-- Reads the longest start of the text whose characters are all of a class. -/
def takeWhile (p : Char → Bool) : Scan (List Char) := do
  let cs := (← get).rest.takeWhile p
  modify (forward cs.length)
  return cs

def skipBlanks : Scan Unit := do
  let _ ← takeWhile (· == ' ')

/-- Reads a line break, if there is one; the line and paragraph separators stand for themselves, all
others for a line feed. -/
def lineBreak : Scan Text := do
  match (← get).peek with
  | some c =>
    if c == '\r' && (← get).peek 1 == some '\n' then
      modify (forward 2)
      return "\n"
    else if isBreak c then
      modify (forward 1)
      return if c == '\u2028' || c == '\u2029' then [.scalar c] else "\n"
    else
      return []
  | none => return []

/-- Reads the rest of a line that holds only blanks and a comment. -/
def ignoredLine : Scan Unit := do
  skipBlanks
  if (← get).peek == some '#' then
    let _ ← takeWhile (!isBreak ·)
  if endsLine (← get).peek then
    let _ ← lineBreak
  else
    refuse

/-- Reads blanks, comments and line breaks up to the next token. -/
def skipToToken (fuel : Nat) : Scan Unit := do
  match fuel with
  | 0 => return
  | fuel + 1 =>
    if (← get).index == 0 && (← get).peek == some '\ufeff' then
      modify (forward 1)
    skipBlanks
    if (← get).peek == some '#' then
      let _ ← takeWhile (!isBreak ·)
    if !(← lineBreak).isEmpty then
      if (← get).flow == 0 then
        modify fun l => { l with allowKey := true }
      skipToToken fuel

/-! ## Candidates and indentation -/

/-- Drops the candidates that are on an earlier line or too far back. -/
def dropStale : Scan Unit := do
  let l ← get
  let stale (c : Candidate) : Bool := c.line != l.line || 1024 < l.index - c.index
  if l.candidates.any (fun c => stale c && c.required) then
    refuse
  else
    set { l with candidates := l.candidates.filter (!stale ·) }

/-- Drops the candidate of the current flow level. -/
def dropCandidate : Scan Unit := do
  let l ← get
  if l.candidates.any (fun c => c.level == l.flow && c.required) then
    refuse
  else
    set { l with candidates := l.candidates.filter (·.level != l.flow) }

/-- Makes the current place a candidate, if a key may start here. -/
def addCandidate : Scan Unit := do
  if (← get).allowKey then
    dropCandidate
    modify fun l =>
      let candidate : Candidate := {
        level := l.flow
        token := l.tokens.size
        required := l.flow == 0 && l.indent == l.column
        index := l.index
        line := l.line
        column := l.column }
      { l with candidates := candidate :: l.candidates }

/-- Closes the block collections that started to the right of a column. -/
def closeBlocks (fuel : Nat) (column : Int) : Scan Unit := do
  match fuel with
  | 0 => return
  | fuel + 1 =>
    let l ← get
    if l.flow == 0 && column < l.indent then
      set { l with
        indent := l.indents.head?.getD (-1)
        indents := l.indents.tail
        tokens := l.tokens.push .blockEnd }
      closeBlocks fuel column

/-- Closes the block collections to the right of a column. -/
def unwind (column : Int) : Scan Unit := do
  closeBlocks ((← get).indents.length + 1) column

/-- Opens a block collection in a column, unless one is open there; says whether it did. -/
def openBlock (column : Int) : Scan Bool := do
  let l ← get
  if l.indent < column then
    set { l with indent := column, indents := l.indent :: l.indents }
    return true
  else
    return false

def setAllowKey (b : Bool) : Scan Unit :=
  modify fun l => { l with allowKey := b }

/-! ## Directives, anchors and tags -/

def name : Scan (List Char) := do
  let cs ← takeWhile isNameChar
  if cs.isEmpty then refuse else return cs

/-- Reads the bytes that a run of percent escapes denotes, as characters. -/
def percentEscapes (fuel : Nat) (done : Bytes) : Scan (List Char) := do
  match fuel with
  | 0 => refuse
  | fuel + 1 =>
    match (← get).rest with
    | '%' :: a :: b :: _ =>
      match Digits.hex? a, Digits.hex? b with
      | some x, some y =>
        modify (forward 3)
        percentEscapes fuel (done ++ [(x * 16 + y).toUInt8])
      | _, _ => refuse
    | '%' :: _ => refuse
    | _ =>
      match Utf8.decode done with
      | .ok cs => return cs
      | .error _ => refuse

/-- Reads the characters of a tag, which may be none. -/
def tagChars (fuel : Nat) : Scan (List Char) := do
  match fuel with
  | 0 => return []
  | fuel + 1 =>
    let cs ← takeWhile fun c => isTagChar c && c != '%'
    if (← get).peek == some '%' then
      let escaped ← percentEscapes ((← get).rest.length + 1) []
      return cs ++ escaped ++ (← tagChars fuel)
    else
      return cs

/-- Reads the characters of a tag, which must not be none. -/
def tagText : Scan (List Char) := do
  let before := (← get).rest.length
  let cs ← tagChars (before + 1)
  if (← get).rest.length == before then refuse else return cs

/-- Reads a tag handle: an exclamation mark, or a name between two of them. -/
def tagHandle : Scan (List Char) := do
  match (← get).rest with
  | '!' :: ' ' :: _ =>
    modify (forward 1)
    return ['!']
  | '!' :: rest =>
    let cs := rest.takeWhile isNameChar
    if rest[cs.length]? == some '!' then
      modify (forward (cs.length + 2))
      return '!' :: cs ++ ['!']
    else
      refuse
  | _ => refuse

/-- The greatest number of digits of a version. -/
def maxVersionDigits : Nat := 4300

def versionNumber : Scan Nat := do
  let cs ← takeWhile Digits.isDecimal
  if cs.isEmpty then refuse
  else if maxVersionDigits < cs.length then throw (.longInteger cs.length)
  else return Digits.value cs

def directive : Scan Token := do
  modify (forward 1)
  let n ← name
  if !endsWord (← get).peek then refuse
  let token ←
    if n == "YAML".toList then
      skipBlanks
      let major ← versionNumber
      if (← get).peek != some '.' then refuse
      modify (forward 1)
      let _ ← versionNumber
      if !endsWord (← get).peek then refuse
      pure (Token.version major)
    else if n == "TAG".toList then
      skipBlanks
      let handle ← tagHandle
      if (← get).peek != some ' ' then refuse
      skipBlanks
      let start ← tagText
      if !endsWord (← get).peek then refuse
      pure (Token.handle handle start)
    else
      let _ ← takeWhile (!isBreak ·)
      pure Token.directive
  ignoredLine
  return token

/-- Reads the name of an anchor after its mark. -/
def anchorName : Scan (List Char) := do
  modify (forward 1)
  let n ← name
  let next := (← get).peek
  if endsToken next || next.any ("?:,]\x7d%@\x60".toList.contains ·) then return n else refuse

def tag : Scan Token := do
  let l ← get
  let token ←
    if l.peek 1 == some '<' then
      modify (forward 2)
      let suffix ← tagText
      if (← get).peek != some '>' then refuse
      modify (forward 1)
      pure (Token.tag none suffix)
    else if endsToken (l.peek 1) then
      modify (forward 1)
      pure (Token.tag none ['!'])
    else
      let word := (l.rest.drop 1).takeWhile fun c => !endsWord (some c)
      let handle ←
        if word.contains '!' then
          tagHandle
        else do
          modify (forward 1)
          pure ['!']
      pure (Token.tag (some handle) (← tagText))
  if endsWord (← get).peek then return token else refuse

/-! ## Block scalars -/

/-- How the line breaks at the end of a block scalar are kept. -/
inductive Chomping where
  | strip
  | clip
  | keep
deriving DecidableEq

def chomping? : Scan (Option Chomping) := do
  match (← get).peek with
  | some '+' => modify (forward 1); return some .keep
  | some '-' => modify (forward 1); return some .strip
  | _ => return none

def indentation? : Scan (Option Nat) := do
  match (← get).peek.bind Digits.decimal? with
  | some 0 => refuse
  | some n => modify (forward 1); return some n
  | none => return none

/-- Reads the marks of a block scalar, in either order. -/
def blockHeader : Scan (Chomping × Option Nat) := do
  let header ←
    match ← chomping? with
    | some c => pure (c, ← indentation?)
    | none =>
      match ← indentation? with
      | some n => pure ((← chomping?).getD .clip, some n)
      | none => pure (.clip, none)
  if endsWord (← get).peek then return header else refuse

/-- Reads blanks and line breaks; gives the breaks and the greatest column reached. -/
def leadingBreaks (fuel : Nat) (widest : Nat) : Scan (Text × Nat) := do
  match fuel with
  | 0 => return ([], widest)
  | fuel + 1 =>
    match (← get).peek with
    | some ' ' =>
      modify (forward 1)
      leadingBreaks fuel (max widest (← get).column)
    | some c =>
      if isBreak c then
        let b ← lineBreak
        let (breaks, widest) ← leadingBreaks fuel widest
        return (b ++ breaks, widest)
      else
        return ([], widest)
    | none => return ([], widest)

def blanksTo (indent : Nat) : Scan Unit := do
  let l ← get
  let blanks := (l.rest.take (indent - l.column)).takeWhile (· == ' ')
  modify (forward blanks.length)

/-- Reads empty lines, and the indentation of the line after them; gives the line breaks. -/
def emptyLines (fuel : Nat) (indent : Nat) : Scan (List Text) := do
  blanksTo indent
  match fuel with
  | 0 => return []
  | fuel + 1 =>
    if (← get).peek.any isBreak then
      let b ← lineBreak
      return b :: (← emptyLines fuel indent)
    else
      return []

/-- Is the next character on the column of the block scalar, before the end of the text? -/
def inBlock (indent : Nat) : Scan Bool := do
  let l ← get
  return l.column == indent && l.peek.isSome

/-- Reads the lines of a block scalar, after the breaks in front of them.  Gives the text, the last line
break, and the breaks after that. -/
def blockLines (fuel : Nat) (folded : Bool) (indent : Nat) (breaks : List Text) :
    Scan (Text × Text × List Text) := do
  match fuel with
  | 0 => return ([], [], breaks)
  | fuel + 1 =>
    if ← inBlock indent then
      let indented (c : Option Char) : Bool := c == some ' ' || c == some '\t'
      let flush := !indented (← get).peek
      let line ← takeWhile (!isBreak ·)
      let b ← lineBreak
      let after ← emptyLines ((← get).rest.length + 1) indent
      let front := breaks.flatten ++ Text.ofChars line
      if ← inBlock indent then
        let joint : Text :=
          if folded && b == Text.ofString "\n" && flush && !indented (← get).peek then
            if after.isEmpty then " " else []
          else
            b
        let (text, last, tail) ← blockLines fuel folded indent after
        return (front ++ joint ++ text, last, tail)
      else
        return (front, b, after)
    else
      return ([], [], breaks)

def blockScalar (folded : Bool) : Scan Token := do
  modify (forward 1)
  let (chomping, increment) ← blockHeader
  ignoredLine
  let l ← get
  let least := (max 1 (l.indent + 1)).toNat
  let fuel := l.rest.length + 1
  let (indent, breaks) ←
    match increment with
    | some n => do
      let indent := least + n - 1
      pure (indent, ← emptyLines fuel indent)
    | none => do
      let (breaks, widest) ← leadingBreaks fuel 0
      pure (max least widest, [breaks])
  let (text, last, tail) ← blockLines fuel folded indent breaks
  let ending :=
    match chomping with
    | .strip => []
    | .clip => last
    | .keep => last ++ tail.flatten
  return .scalar (text ++ ending) false

/-! ## Flow scalars -/

/-- The character that an escape with a single letter stands for. -/
def escaped? : Char → Option Char
  | '0' => some '\x00'
  | 'a' => some '\x07'
  | 'b' => some '\x08'
  | 't' => some '\t'
  | '\t' => some '\t'
  | 'n' => some '\n'
  | 'v' => some '\x0b'
  | 'f' => some '\x0c'
  | 'r' => some '\r'
  | 'e' => some '\x1b'
  | ' ' => some ' '
  | '"' => some '"'
  | '\\' => some '\\'
  | '/' => some '/'
  | 'N' => some '\x85'
  | '_' => some '\xa0'
  | 'L' => some '\u2028'
  | 'P' => some '\u2029'
  | _ => none

/-- The number of digits of an escape by number. -/
def escapeWidth? : Char → Option Nat
  | 'x' => some 2
  | 'u' => some 4
  | 'U' => some 8
  | _ => none

def numericEscape (width : Nat) : Scan Codepoint := do
  let digits := (← get).rest.take width
  if digits.length < width || digits.any (fun c => (Digits.hex? c).isNone) then
    refuse
  else
    modify (forward width)
    let n := Digits.valueIn 16 Digits.hex? digits
    match Codepoint.ofNat? n with
    | some c => return c
    | none => throw (if 0x80000000 ≤ n then .hugeCodepoint else .badCodepoint)

/-- Reads the empty lines inside a quoted scalar; a document mark must not start any of them. -/
def quotedBreaks (fuel : Nat) : Scan Text := do
  match fuel with
  | 0 => return []
  | fuel + 1 =>
    if (← get).atDocumentMark then refuse
    let _ ← takeWhile fun c => c == ' ' || c == '\t'
    let b ← lineBreak
    if b.isEmpty then return [] else return b ++ (← quotedBreaks fuel)

/-- Reads blanks and line breaks inside a quoted scalar, folded. -/
def quotedBlanks : Scan Text := do
  let blanks ← takeWhile fun c => c == ' ' || c == '\t'
  match (← get).peek with
  | none => refuse
  | some c =>
    if isBreak c then
      let b ← lineBreak
      let breaks ← quotedBreaks ((← get).rest.length + 1)
      if b != Text.ofString "\n" then return b ++ breaks
      else if breaks.isEmpty then return " "
      else return breaks
    else
      return Text.ofChars blanks

/-- Reads the rest of a quoted scalar, after its opening mark. -/
def quotedText (fuel : Nat) (double : Bool) : Scan Text := do
  match fuel with
  | 0 => refuse
  | fuel + 1 =>
    let cs ← takeWhile fun c => !(isBreak c || "'\"\\ \t".toList.contains c)
    let front := Text.ofChars cs
    let l ← get
    match l.peek with
    | none => refuse
    | some c =>
      if !double && c == '\'' && l.peek 1 == some '\'' then
        modify (forward 2)
        return front ++ [.scalar '\''] ++ (← quotedText fuel double)
      else if c == (if double then '"' else '\'') then
        modify (forward 1)
        return front
      else if c == '\'' || c == '"' || (!double && c == '\\') then
        modify (forward 1)
        return front ++ [.scalar c] ++ (← quotedText fuel double)
      else if c == '\\' then
        modify (forward 1)
        match (← get).peek with
        | none => refuse
        | some e =>
          match escaped? e, escapeWidth? e with
          | some x, _ =>
            modify (forward 1)
            return front ++ [.scalar x] ++ (← quotedText fuel double)
          | none, some width =>
            modify (forward 1)
            let x ← numericEscape width
            return front ++ [x] ++ (← quotedText fuel double)
          | none, none =>
            if isBreak e then
              let _ ← lineBreak
              let breaks ← quotedBreaks ((← get).rest.length + 1)
              return front ++ breaks ++ (← quotedText fuel double)
            else
              refuse
      else
        let blanks ← quotedBlanks
        return front ++ blanks ++ (← quotedText fuel double)

def quotedScalar (double : Bool) : Scan Token := do
  modify (forward 1)
  let fuel := 2 * (← get).rest.length + 2
  return .scalar (← quotedText fuel double) false

/-! ## Plain scalars -/

def startsPlain (l : Lexer) : Bool :=
  match l.peek with
  | none => false
  | some c =>
    if isBreak c || c == ' ' || c == '\t' then false
    else if "-?:,[]\x7b\x7d#&*!|>'\"%@\x60".toList.contains c then
      !endsToken (l.peek 1) && (c == '-' || (l.flow == 0 && (c == '?' || c == ':')))
    else
      true

/-- The number of characters in front of the next blank, colon or flow mark that ends a plain scalar. -/
def plainLength (inFlow : Bool) : List Char → Nat
  | [] => 0
  | c :: rest =>
    let next := rest.head?
    if endsToken (some c) then 0
    else if c == ':' && (endsToken next || (inFlow && next.any (",[]\x7b\x7d".toList.contains ·))) then 0
    else if inFlow && ",?[]\x7b\x7d".toList.contains c then 0
    else plainLength inFlow rest + 1

/-- Reads the line breaks in the middle of a plain scalar; `none` when a document mark follows. -/
def plainBreaks (fuel : Nat) : Scan (Option Text) := do
  match fuel with
  | 0 => return some []
  | fuel + 1 =>
    skipBlanks
    let b ← lineBreak
    if b.isEmpty then
      return some []
    else if (← get).atDocumentMark then
      return none
    else
      return (← plainBreaks fuel).map (b ++ ·)

/-- Reads blanks and line breaks in the middle of a plain scalar, folded. -/
def plainBlanks : Scan Text := do
  let blanks ← takeWhile (· == ' ')
  if (← get).peek.any isBreak then
    let b ← lineBreak
    setAllowKey true
    if (← get).atDocumentMark then
      return []
    else
      match ← plainBreaks ((← get).rest.length + 1) with
      | none => return []
      | some breaks =>
        if b != Text.ofString "\n" then return b ++ breaks
        else if breaks.isEmpty then return " "
        else return breaks
  else
    return Text.ofChars blanks

/-- Reads a plain scalar, after the folded blanks in front of its next word. -/
def plainText (fuel : Nat) (indent : Int) (blanks : Text) : Scan Text := do
  match fuel with
  | 0 => return []
  | fuel + 1 =>
    let l ← get
    let length := plainLength (l.flow != 0) l.rest
    if l.peek == some '#' || length == 0 then
      return []
    else
      let word := Text.ofChars (l.rest.take length)
      modify fun l => { forward length l with allowKey := false }
      let next ← plainBlanks
      let l ← get
      if next.isEmpty || l.peek == some '#' || (l.flow == 0 && (l.column : Int) < indent) then
        return blanks ++ word
      else
        return blanks ++ word ++ (← plainText fuel indent next)

def plainScalar : Scan Token := do
  let l ← get
  return .scalar (← plainText (l.rest.length + 1) (l.indent + 1) []) true

/-! ## Tokens -/

/-- Adds a token that a mark of `n` characters makes. -/
def mark (n : Nat) (t : Token) : Scan Unit :=
  modify fun l => push t (forward n l)

def openFlow (t : Token) : Scan Unit := do
  addCandidate
  modify fun l => { l with flow := l.flow + 1, allowKey := true }
  mark 1 t

/-- Closes a flow collection; there has to be one. -/
def closeFlow (t : Token) : Scan Unit := do
  dropCandidate
  if (← get).flow == 0 then
    modify (push (.broken .malformed))
  modify fun l => { l with flow := l.flow - 1, allowKey := false }
  mark 1 t

/-- Adds the mark of an item of a block sequence. -/
def entry : Scan Unit := do
  let l ← get
  if l.flow == 0 then
    if !l.allowKey then refuse
    if ← openBlock l.column then
      modify (push .blockSequenceStart)
  setAllowKey true
  dropCandidate
  mark 1 .blockEntry

def explicitKey : Scan Unit := do
  let l ← get
  if l.flow == 0 then
    if !l.allowKey then refuse
    if ← openBlock l.column then
      modify (push .blockMappingStart)
  setAllowKey (l.flow == 0)
  dropCandidate
  mark 1 .key

/-- Adds the mark of a value, and the mark of the key before it when a candidate turns out to be one. -/
def mappingValue : Scan Unit := do
  let l ← get
  match l.candidates.find? (·.level == l.flow) with
  | some c =>
    set { l with
      candidates := l.candidates.filter (·.level != l.flow)
      tokens := l.tokens.insertIdxIfInBounds c.token .key }
    if l.flow == 0 then
      if ← openBlock c.column then
        modify fun l =>
          { l with tokens := l.tokens.insertIdxIfInBounds c.token .blockMappingStart }
    setAllowKey false
  | none =>
    if l.flow == 0 then
      if !l.allowKey then refuse
      if ← openBlock l.column then
        modify (push .blockMappingStart)
    setAllowKey (l.flow == 0)
    dropCandidate
  mark 1 .value

def node (scan : Scan Token) : Scan Unit := do
  addCandidate
  setAllowKey false
  let t ← scan
  modify (push t)

/-- Ends the block structure, and adds a token in the first column. -/
def atTop (scan : Scan Token) : Scan Unit := do
  unwind (-1)
  dropCandidate
  setAllowKey false
  let t ← scan
  modify (push t)

def documentMark (t : Token) : Scan Token := do
  modify (forward 3)
  return t

/-- Adds the next token, with the tokens that its place implies; says whether there was one. -/
def fetch : Scan Bool := do
  skipToToken ((← get).rest.length + 1)
  dropStale
  unwind (← get).column
  let l ← get
  let next := l.peek 1
  match l.peek with
  | none =>
    unwind (-1)
    dropCandidate
    return false
  | some c =>
    if l.column == 0 && c == '%' then atTop directive
    else if l.column == 0 && l.atMark "---" then atTop (documentMark .documentStart)
    else if l.column == 0 && l.atMark "..." then atTop (documentMark .documentEnd)
    else if c == '[' then openFlow .flowSequenceStart
    else if c == '\x7b' then openFlow .flowMappingStart
    else if c == ']' then closeFlow .flowSequenceEnd
    else if c == '\x7d' then closeFlow .flowMappingEnd
    else if c == ',' then
      setAllowKey true
      dropCandidate
      mark 1 .flowEntry
    else if c == '-' && endsToken next then entry
    else if c == '?' && (l.flow != 0 || endsToken next) then explicitKey
    else if c == ':' && (l.flow != 0 || endsToken next) then mappingValue
    else if c == '*' then node (return .reference (← anchorName))
    else if c == '&' then node (return .anchor (← anchorName))
    else if c == '!' then node tag
    else if l.flow == 0 && (c == '|' || c == '>') then
      setAllowKey true
      dropCandidate
      let t ← blockScalar (c == '>')
      modify (push t)
    else if c == '\'' then node (quotedScalar false)
    else if c == '"' then node (quotedScalar true)
    else if startsPlain l then node plainScalar
    else refuse
    return true

/-- The number of tokens in front of all candidates: none of them can get a token put in front of it. -/
def Lexer.settled (l : Lexer) : Nat :=
  (l.candidates.map (·.token)).foldr min l.tokens.size

/-- The tokens from a place on, up to another one. -/
def Lexer.between (l : Lexer) (start stop : Nat) : List Token :=
  (l.tokens.extract start stop).toList

/-- Gives out the tokens behind the first `taken` ones, up to the end of the text, or to the place where it
stops to form tokens.  While the next token is not settled, the ones behind it are formed, and a fault on
the way stands in its place. -/
def deliver (fuel taken : Nat) (l : Lexer) : List Token :=
  match fuel with
  | 0 => [.broken .malformed]
  | fuel + 1 =>
    match dropStale.run l with
    | .error f => [.broken f]
    | .ok (_, l) =>
      l.between taken l.settled ++
        match fetch.run l with
        | .error f => [.broken f]
        | .ok (false, next) => next.between l.settled next.tokens.size
        | .ok (true, next) => deliver fuel l.settled next

def Token.scan (cs : List Char) : List Token :=
  if cs.all isAllowed then deliver (cs.length + 1) 0 { rest := cs } else [.broken .malformed]

end Yaml

end SchemaGraft
