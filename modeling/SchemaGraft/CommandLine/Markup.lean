import SchemaGraft.Fault
import SchemaGraft.Text.Blank

/-!
# Texts with style tags

What the command line prints may hold tags for styles, such as a colour.  A tag is a bracketed word that
starts with a small letter or one of a few signs; a slash in front of the word closes the style.  A
backslash in front of a tag makes it ordinary text.

## Architecture

- `Markup.pieces` divides a text into plain parts and tags.
- `Markup.render` takes the tags away; a closing tag must match an open one, in the canonical spelling of
  its style.
- `Markup.escape` protects a text that may hold brackets by chance.
-/

namespace SchemaGraft

namespace Markup

/-! ## Pieces -/

inductive Piece where
  | plain (t : Text)
  -- a tag, without its brackets
  | tag (t : Text)
deriving DecidableEq, Repr

def startsTag (c : Codepoint) : Bool :=
  match c with
  | .scalar c => ('a' ≤ c && c ≤ 'z') || c == '#' || c == '/' || c == '@'
  | .surrogate _ => false

/-- The tag at the start of a text, without its brackets, and what follows it. -/
def tagAt? (t : Text) : Option (Text × Text) :=
  match t with
  | .scalar '[' :: c :: rest =>
    if startsTag c then
      let body := rest.takeWhile fun d => d ≠ .scalar '[' ∧ d ≠ .scalar ']'
      match rest.drop body.length with
      | .scalar ']' :: rest => some (c :: body, rest)
      | _ => none
    else
      none
  | _ => none

def written (tag : Text) : Text :=
  .scalar '[' :: tag ++ [.scalar ']']

def backslashes (n : Nat) : Text :=
  List.replicate n (.scalar '\\')

/-- A tag that follows some backslashes: two of them stand for one, and a single one that is left over
makes the tag ordinary text. -/
def tagPieces (slashes : Nat) (tag : Text) : List Piece :=
  (if slashes < 2 then [] else [.plain (backslashes (slashes / 2))]) ++
    [if slashes % 2 = 1 then .plain (written tag) else .tag tag]

def extend (c : Codepoint) : List Piece → List Piece
  | .plain t :: rest => .plain (c :: t) :: rest
  | rest => .plain [c] :: rest

/-- The pieces of a text.  `slashes` counts the backslashes in front of it, and `skip` the code points of
a tag that was just read. -/
def divide (slashes skip : Nat) : Text → List Piece
  | [] => if slashes = 0 then [] else [.plain (backslashes slashes)]
  | c :: rest =>
    match skip with
    | skip + 1 => divide 0 skip rest
    | 0 =>
      if c = .scalar '\\' then
        divide (slashes + 1) 0 rest
      else
        match tagAt? (c :: rest) with
        | some (tag, _) => tagPieces slashes tag ++ .plain [] :: divide 0 (tag.length + 1) rest
        | none => (backslashes slashes).foldr extend (extend c (divide 0 0 rest))

def pieces (t : Text) : List Piece :=
  divide 0 0 t

/-! ## Styles -/

/-- The attributes of a style, each with its short forms, in the order in which they are spelled. -/
def attributeNames : List (String × List String) :=
  [("bold", ["b"]), ("dim", ["d"]), ("italic", ["i"]), ("underline", ["u"]), ("blink", []),
    ("blink2", []), ("reverse", ["r"]), ("conceal", ["c"]), ("strike", ["s"]), ("underline2", ["uu"]),
    ("frame", []), ("encircle", []), ("overline", ["o"])]

def attribute? (word : Text) : Option Text :=
  (attributeNames.find? fun a => (a.1 :: a.2).any fun w => Text.ofString w == word).map
    fun a => Text.ofString a.1

def basicColours : List String :=
  let hues := ["black", "red", "green", "yellow", "blue", "magenta", "cyan", "white"]
  "default" :: hues ++ hues.map ("bright_" ++ ·)

def isColour (word : Text) : Bool :=
  basicColours.any (fun w => Text.ofString w == word) ||
    match word.toChars? with
    | some ('#' :: digits) => digits.length == 6 && digits.all fun c => (Digits.hex? c).isSome
    | _ => false

structure Style where
  -- the attributes that are set or excluded
  attributes : List (Text × Bool) := []
  colour : Option Text := none
  background : Option Text := none
  link : Option Text := none

def Style.ofWords (s : Style) : List Text → Option Style
  | [] => some s
  | word :: rest =>
    let name := word.toLowerAscii
    if name = "on" then
      match rest with
      | colour :: rest =>
        let colour := colour.toLowerAscii
        if isColour colour then ofWords { s with background := some colour } rest else none
      | [] => none
    else if name = "not" then
      match rest with
      | word :: rest => do
        let a ← attribute? word
        ofWords { s with attributes := Json.put a false s.attributes } rest
      | [] => none
    else if name = "link" then
      match rest with
      | address :: rest => ofWords { s with link := some address } rest
      | [] => none
    else
      match attribute? name with
      | some a => ofWords { s with attributes := Json.put a true s.attributes } rest
      | none => if isColour name then ofWords { s with colour := some name } rest else none

def Style.spelling (s : Style) : Text :=
  let set := attributeNames.filterMap fun a =>
    match Json.lookup (Text.ofString a.1) s.attributes with
    | some true => some (Text.ofString a.1)
    | some false => some ("not " ++ Text.ofString a.1)
    | none => none
  let parts := set ++ s.colour.toList ++ (s.background.map (Text.ofString "on " ++ ·)).toList ++
    (s.link.map (Text.ofString "link " ++ ·)).toList
  if parts.isEmpty then "none" else Text.join " " parts

/-- The spelling by which styles are compared: the canonical one, or small letters for what is no
style. -/
def spelling (name : Text) : Text :=
  let trimmed := (name.strip Codepoint.isSpacing).toLowerAscii
  if trimmed = "none" then trimmed
  else
    match Style.ofWords {} name.words with
    | some s => s.spelling
    | none => trimmed

/-! ## Rendering -/

/-- The name in a tag; what follows an equals sign are parameters. -/
def tagName (tag : Text) : Text :=
  (tag.cutAt (.scalar '=')).1

/-- The open styles, the innermost first, after a tag.  A closing tag that matches no open one is the only
thing that is refused: the parameters of tags are not looked at. -/
def follow (stack : List Text) (tag : Text) : Except MarkupFault (List Text) :=
  match tagName tag with
  | .scalar '/' :: name =>
    if (Text.strip Codepoint.isSpacing name).isEmpty then
      match stack with
      | [] => .error .nothingOpen
      | _ :: rest => .ok rest
    else
      let style := spelling (Text.strip Codepoint.isSpacing name)
      if stack.contains style then .ok (stack.erase style) else .error (.unmatched tag)
  | name => .ok (spelling name :: stack)

/-- Plain text, in which a backslash before a bracket stands for nothing. -/
def unescape (t : Text) : Text :=
  t.replaceAll "\\[" "["

/-- The text of some pieces, with the given styles open. -/
def renderPieces (stack : List Text) : List Piece → Except MarkupFault Text
  | [] => .ok []
  | .plain t :: rest => (renderPieces stack rest).map (unescape t ++ ·)
  | .tag t :: rest => do renderPieces (← follow stack t) rest

/-- The text that is shown for a text with tags. -/
def render (t : Text) : Except MarkupFault Text :=
  renderPieces [] (pieces t)

/-! ## Escaping -/

/-- Protects the tags of a text.  `slashes` and `skip` are as in `divide`. -/
def protect (slashes skip : Nat) : Text → Text
  | [] => backslashes slashes
  | c :: rest =>
    match skip with
    | skip + 1 => protect 0 skip rest
    | 0 =>
      if c = .scalar '\\' then
        protect (slashes + 1) 0 rest
      else
        match tagAt? (c :: rest) with
        | some (tag, _) =>
          backslashes (2 * slashes + 1) ++ written tag ++ protect 0 (tag.length + 1) rest
        | none => backslashes slashes ++ c :: protect 0 0 rest

/-- A text that is shown as it is; a single backslash at its end is doubled. -/
def escape (t : Text) : Text :=
  let safe := protect 0 0 t
  match safe.reverse with
  | .scalar '\\' :: .scalar '\\' :: _ => safe
  | .scalar '\\' :: _ => safe ++ backslashes 1
  | _ => safe

end Markup

end SchemaGraft
