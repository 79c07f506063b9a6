import Mathlib
import SchemaGraft.Yaml.Token.Lexer

/-!
# Where Characters Stop to Form Tokens

Nearly everything that is wrong with the characters of a YAML text makes it malformed.  There are two exceptions:
an escape by number that denotes no character, which takes a backslash in the text, and a version with too many
digits.

## Architecture

- **Runs**: `Yaml.triple_iff_run` leads from triples of steps to the results of their runs, and back.
- **Reasons**: `Yaml.Unscannable` lists them for a text.
- **States**: `Yaml.Lexer.Within` is what every step of the lexer keeps: what is left is an end of the text,
  and a token that marks a stop has one of the reasons.
- **Steps**: `Yaml.Scan.Sound` says that a step keeps this and stops for one of the reasons.  There is one such
  lemma for each step, from single characters up to `Yaml.sound_fetch`; those of the last sections are the steps
  that add tokens.
- **Main result**: `Yaml.unscannable_of_mem_scan`.
-/

namespace SchemaGraft

namespace Yaml

open Std.Do

set_option mvcgen.warning false

/-! ## Runs -/

/-- What a triple says of a step that may fail: what holds of each result of its run. -/
theorem triple_iff_run {σ ε α : Type} {x : StateT σ (Except ε) α} {P : σ → Prop} {Q : α → σ → Prop}
    {E : ε → Prop} :
    ⦃fun s => ⌜P s⌝⦄ x ⦃post⟨fun a s => ⌜Q a s⌝, fun e => ⌜E e⌝⟩⦄ ↔
      ∀ s, P s → (∀ a s', x.run s = .ok (a, s') → Q a s') ∧ ∀ e, x.run s = .error e → E e := by
  refine forall_congr' fun s => imp_congr_right fun _ => ?_
  change ((wp (x.run s)).apply _).down ↔ _
  cases x.run s with
  | ok p => exact ⟨fun h => ⟨fun _ _ e => by cases e; exact h, nofun⟩, fun h => h.1 p.1 p.2 rfl⟩
  | error f => exact ⟨fun h => ⟨nofun, fun _ e => by cases e; exact h⟩, fun h => h.2 f rfl⟩

/-! ## Reasons -/

/-- Why the characters of a text stop to form tokens. -/
inductive Unscannable (cs : List Char) : Fault → Prop
  /-- The text breaks a rule of the format. -/
  | malformed : Unscannable cs .malformed
  /-- An escape denotes a number that is none of a character. -/
  | badCodepoint (h : '\\' ∈ cs) : Unscannable cs .badCodepoint
  /-- An escape denotes a number of more than 31 bits. -/
  | hugeCodepoint (h : '\\' ∈ cs) : Unscannable cs .hugeCodepoint
  /-- A version has too many digits in a row. -/
  | longInteger {digits : List Char} (h : digits <:+: cs) (hdigits : digits.all Digits.isDecimal = true)
    (hlong : maxVersionDigits < digits.length) : Unscannable cs (.longInteger digits.length)

attribute [grind intro] Unscannable

/-- The token marks no stop, or one with a reason. -/
def Token.Sound (cs : List Char) (t : Token) : Prop :=
  ∀ f, t = .broken f → Unscannable cs f

/-! ## States -/

variable {cs : List Char} {l : Lexer}

/-- A state on the way through the text. -/
structure Lexer.Within (cs : List Char) (l : Lexer) : Prop where
  /-- What is left is an end of the text. -/
  rest : l.rest <:+ cs
  /-- Tokens stop to be formed for a reason only. -/
  tokens : ∀ t ∈ l.tokens, t.Sound cs

namespace Lexer

/-- Only the text that is left and the tokens matter, whatever the other parts of a state are. -/
@[grind =]
theorem within_iff {rest : List Char} {index line column flow : ℕ} {indent : ℤ} {indents : List ℤ}
    {allowKey : Bool} {candidates : List Candidate} {tokens : Array Token} :
    (Lexer.mk rest index line column flow indent indents allowKey candidates tokens).Within cs ↔
      rest <:+ cs ∧ ∀ t ∈ tokens, t.Sound cs :=
  ⟨fun h => ⟨h.rest, h.tokens⟩, fun h => ⟨h.1, h.2⟩⟩

/-- Going forward leaves an end of what was left. -/
theorem rest_forward (l : Lexer) (n : ℕ) : (forward n l).rest <:+ l.rest := by
  fun_induction forward n l with
  | case1 => exact List.suffix_rfl
  | case2 => exact List.suffix_rfl
  | case3 l n c rest heq l' ih =>
    -- whatever the character does to the place, there is one less left
    refine ih.trans ?_
    rw [heq]
    split_ifs <;> exact List.suffix_cons c rest

/-- Going forward adds no token. -/
@[grind =]
theorem tokens_forward (n : ℕ) (l : Lexer) : (forward n l).tokens = l.tokens := by
  fun_induction forward n l with
  | case1 => rfl
  | case2 => rfl
  | case3 l n c rest heq l' ih =>
    rw [ih]
    split_ifs <;> rfl

@[grind ←]
theorem Within.rest_forward (n : ℕ) (h : l.Within cs) : (forward n l).rest <:+ cs :=
  (l.rest_forward n).trans h.rest

@[grind ←]
theorem Within.forward (n : ℕ) (h : l.Within cs) : (forward n l).Within cs where
  rest := h.rest_forward n
  tokens := by
    rw [tokens_forward]
    exact h.tokens

attribute [grind →] Within.rest

/-- A character that is peeked at is one of the text, however far ahead it is. -/
@[grind →]
theorem Within.mem_of_peek {c : Char} {n : ℕ} (h : l.Within cs) (hc : l.peek n = some c) : c ∈ cs :=
  h.rest.mem (List.mem_of_getElem? hc)

@[grind →]
theorem Within.sound {t : Token} (h : l.Within cs) (ht : t ∈ l.tokens) : t.Sound cs :=
  h.tokens t ht

end Lexer

namespace Scan

/-- A step that keeps to the text, and stops for one of the reasons only. -/
abbrev Sound {α : Type} (cs : List Char) (x : Scan α) : Prop :=
  ⦃fun l => ⌜l.Within cs⌝⦄ x ⦃post⟨fun _ l => ⌜l.Within cs⌝, fun f => ⌜Unscannable cs f⌝⟩⦄

/-- A step of this kind that gives a token, which marks no stop. -/
abbrev Forms (cs : List Char) (x : Scan Token) : Prop :=
  ⦃fun l => ⌜l.Within cs⌝⦄ x
    ⦃post⟨fun t l => ⌜l.Within cs ∧ t.Sound cs⌝, fun f => ⌜Unscannable cs f⌝⟩⦄

end Scan

open Scan (Sound Forms)

/-! ## Lines and Blanks -/

/-- After a refusal nothing is done. -/
@[simp]
theorem refuse_bind {α β : Type} (f : α → Scan β) : (refuse >>= f) = refuse := rfl

@[spec]
theorem sound_refuse {α : Type} {Q : α → Lexer → Prop} :
    ⦃fun _ => ⌜True⌝⦄ (refuse : Scan α)
      ⦃post⟨fun a l => ⌜Q a l⌝, fun f => ⌜Unscannable cs f⌝⟩⦄ :=
  fun _ _ => Unscannable.malformed

/-- All characters in a row that satisfy a test are read, and they may be none. -/
@[spec]
theorem sound_takeWhile (p : Char → Bool) : Sound cs (takeWhile p) := by
  mvcgen [takeWhile] with grind

@[spec]
theorem sound_skipBlanks : Sound cs skipBlanks := by
  mvcgen [skipBlanks]

/-- A line break is one character, or two of them. -/
@[spec]
theorem sound_lineBreak : Sound cs lineBreak := by
  mvcgen [lineBreak] with grind

@[spec]
theorem sound_ignoredLine : Sound cs ignoredLine := by
  mvcgen [ignoredLine]

/-- Blanks, comments and line ends are skipped, of which there are no more than there are characters. -/
@[spec]
theorem sound_skipToToken (fuel : ℕ) : Sound cs (skipToToken fuel) := by
  -- the step calls itself behind each line that holds no token
  induction fuel with
  | zero => mvcgen [skipToToken]
  | succ fuel ih => mvcgen [skipToToken, ih] with grind

/-! ## Candidates and Indentation -/

/-- What may become a key is forgotten behind its line, or too far from it; a key that has to be there is not. -/
@[spec]
theorem sound_dropStale : Sound cs dropStale := by
  mvcgen [dropStale] with grind

/-- Nor may a key that has to be there make way for another one. -/
@[spec]
theorem sound_dropCandidate : Sound cs dropCandidate := by
  mvcgen [dropCandidate] with grind

/-- The place of the next token is noted as one where a key may have begun. -/
@[spec]
theorem sound_addCandidate : Sound cs addCandidate := by
  mvcgen [addCandidate] with grind

/-- Each block that is closed gets a token, and none of these tokens marks a stop. -/
@[spec]
theorem sound_closeBlocks (fuel : ℕ) (column : ℤ) : Sound cs (closeBlocks fuel column) := by
  -- one block is closed at a time, of which there are as many as there are indents
  induction fuel with
  | zero => mvcgen [closeBlocks]
  | succ fuel ih => mvcgen [closeBlocks, ih] with grind [Token.Sound]

@[spec]
theorem sound_unwind (column : ℤ) : Sound cs (unwind column) := by
  mvcgen [unwind]

@[spec]
theorem sound_openBlock (column : ℤ) : Sound cs (openBlock column) := by
  mvcgen [openBlock] with grind

@[spec]
theorem sound_setAllowKey (b : Bool) : Sound cs (setAllowKey b) := by
  mvcgen [setAllowKey] with grind

/-! ## Directives, Anchors and Tags -/

@[spec]
theorem sound_name : Sound cs name := by
  mvcgen [name]

/-- The bytes that are written by their numbers in a tag have to be those of a text. -/
@[spec]
theorem sound_percentEscapes (fuel : ℕ) (done : Bytes) : Sound cs (percentEscapes fuel done) := by
  -- the bytes done so far are handed on from escape to escape
  induction fuel generalizing done with
  | zero => mvcgen [percentEscapes]
  | succ fuel ih => mvcgen [percentEscapes, ih] with grind

@[spec]
theorem sound_tagChars (fuel : ℕ) : Sound cs (tagChars fuel) := by
  induction fuel with
  | zero => mvcgen [tagChars]
  | succ fuel ih => mvcgen [tagChars, ih]

/-- The text of a tag is in no case empty. -/
@[spec]
theorem sound_tagText : Sound cs tagText := by
  mvcgen [tagText]

@[spec]
theorem sound_tagHandle : Sound cs tagHandle := by
  mvcgen [tagHandle] with grind

/-- A number in a version is told from its digits: there has to be one, and there must not be too many. -/
theorem run_versionNumber (l : Lexer) :
    versionNumber.run l =
      let digits := l.rest.takeWhile Digits.isDecimal
      if digits.isEmpty then .error .malformed
      else if maxVersionDigits < digits.length then .error (.longInteger digits.length)
      else .ok (Digits.value digits, l.forward digits.length) := by
  simp only [versionNumber, takeWhile, refuse, StateT.run_bind, StateT.run_get, StateT.run_modify,
    StateT.run_pure, pure_bind]
  -- the number of digits decides
  split
  · rfl
  · split <;> rfl

/-- One of the two steps that stop for another reason than a broken rule. -/
@[spec]
theorem sound_versionNumber : Sound cs versionNumber := by
  refine triple_iff_run.2 fun l hl => ?_
  -- what is told of the digits is where they stand, and that they are digits
  have hinfix : l.rest.takeWhile Digits.isDecimal <:+: cs :=
    (List.takeWhile_prefix _).isInfix.trans hl.rest.isInfix
  have hdigits : (l.rest.takeWhile Digits.isDecimal).all Digits.isDecimal = true := List.all_takeWhile
  rw [run_versionNumber]
  grind

/-- A directive gives one token, and the rest of its line is empty, or a comment. -/
theorem forms_directive : Forms cs directive := by
  simp only [directive, refuse_bind, pure_bind]
  -- which names directives have does not matter, and spelled out they would be compared letter by letter
  generalize String.toList = chars
  mvcgen with grind [Token.Sound]

@[spec]
theorem sound_anchorName : Sound cs anchorName := by
  unfold anchorName
  -- nor does it matter which marks may follow
  generalize String.toList = chars
  mvcgen with grind

/-- The name after the mark of an anchor, or after that of a reference to one. -/
theorem forms_anchorName {t : List Char → Token} (h : ∀ n, (t n).Sound cs) :
    Forms cs (return t (← anchorName)) := by
  mvcgen with grind

/-- A tag is verbatim, has a handle in front of it, or is just the mark of one. -/
theorem forms_tag : Forms cs tag := by
  simp only [tag, refuse_bind, pure_bind]
  mvcgen with grind [Token.Sound]

/-! ## Block Scalars -/

@[spec]
theorem sound_chomping? : Sound cs chomping? := by
  mvcgen [chomping?] with grind

@[spec]
theorem sound_indentation? : Sound cs indentation? := by
  mvcgen [indentation?] with grind

/-- The signs behind the mark of a block come in either order. -/
@[spec]
theorem sound_blockHeader : Sound cs blockHeader := by
  mvcgen [blockHeader]

/-- The empty lines in front of a block say how far it is indented, if the header does not. -/
@[spec]
theorem sound_leadingBreaks (fuel widest : ℕ) : Sound cs (leadingBreaks fuel widest) := by
  -- the widest line so far is handed on, so that any number may stand in its place
  induction fuel generalizing widest with
  | zero => mvcgen [leadingBreaks]
  | succ fuel ih => mvcgen [leadingBreaks, ih] with grind

@[spec]
theorem sound_blanksTo (indent : ℕ) : Sound cs (blanksTo indent) := by
  mvcgen [blanksTo] with grind

@[spec]
theorem sound_emptyLines (fuel indent : ℕ) : Sound cs (emptyLines fuel indent) := by
  induction fuel with
  | zero => mvcgen [emptyLines]
  | succ fuel ih => mvcgen [emptyLines, ih]

@[spec]
theorem sound_inBlock (indent : ℕ) : Sound cs (inBlock indent) := by
  mvcgen [inBlock]

/-- The lines of a block are read as long as they reach its column. -/
@[spec]
theorem sound_blockLines (fuel : ℕ) (folded : Bool) (indent : ℕ) (breaks : List Text) :
    Sound cs (blockLines fuel folded indent breaks) := by
  -- the breaks between two lines are handed on to the next one
  induction fuel generalizing breaks with
  | zero => mvcgen [blockLines]
  | succ fuel ih => mvcgen [blockLines, ih]

/-- A block gives one scalar, which is empty if there is no line in the block. -/
theorem forms_blockScalar (folded : Bool) : Forms cs (blockScalar folded) := by
  mvcgen [blockScalar] with grind [Token.Sound]

/-! ## Quoted Scalars -/

/-- An escape by number is told from the digits behind it: all of them have to be there, and the number has to
be one of a character. -/
theorem run_numericEscape (width : ℕ) (l : Lexer) :
    (numericEscape width).run l =
      let digits := l.rest.take width
      let n := Digits.valueIn 16 Digits.hex? digits
      if digits.length < width || digits.any (fun c => (Digits.hex? c).isNone) then .error .malformed
      else match Codepoint.ofNat? n with
        | some c => .ok (c, l.forward width)
        | none => .error (if 0x80000000 ≤ n then .hugeCodepoint else .badCodepoint) := by
  unfold numericEscape
  simp only [refuse, StateT.run_bind, StateT.run_get, pure_bind]
  -- the test of the digits comes first, and what there is then is the character of the number, or none
  split
  · rfl
  · generalize Codepoint.ofNat? _ = c
    cases c <;> rfl

/-- The other one of these steps. -/
@[spec]
theorem sound_numericEscape (h : '\\' ∈ cs) (width : ℕ) : Sound cs (numericEscape width) := by
  refine triple_iff_run.2 fun l hl => ?_
  rw [run_numericEscape]
  grind

/-- Between the lines of a quoted scalar there is no mark of a document. -/
@[spec]
theorem sound_quotedBreaks (fuel : ℕ) : Sound cs (quotedBreaks fuel) := by
  induction fuel with
  | zero => mvcgen [quotedBreaks]
  | succ fuel ih => mvcgen [quotedBreaks, ih]

@[spec]
theorem sound_quotedBlanks : Sound cs quotedBlanks := by
  mvcgen [quotedBlanks]

/-- A numeric escape is read behind a backslash only, which is one of the text. -/
@[spec]
theorem sound_quotedText (fuel : ℕ) (double : Bool) : Sound cs (quotedText fuel double) := by
  induction fuel with
  | zero => mvcgen [quotedText]
  | succ fuel ih =>
    -- the character in front of the escape was peeked at, which puts it into the text
    mvcgen [quotedText, ih] with grind

/-- A quoted scalar is read up to the quote that closes it, which has to be there. -/
theorem forms_quotedScalar (double : Bool) : Forms cs (quotedScalar double) := by
  mvcgen [quotedScalar] with grind [Token.Sound]

/-! ## Plain Scalars -/

/-- Between the lines of a plain scalar, a mark of a document ends the scalar. -/
@[spec]
theorem sound_plainBreaks (fuel : ℕ) : Sound cs (plainBreaks fuel) := by
  induction fuel with
  | zero => mvcgen [plainBreaks]
  | succ fuel ih => mvcgen [plainBreaks, ih]

@[spec]
theorem sound_plainBlanks : Sound cs plainBlanks := by
  mvcgen [plainBlanks]

/-- The words of a plain scalar are read one after the other, with the blanks between them. -/
@[spec]
theorem sound_plainText (fuel : ℕ) (indent : ℤ) (blanks : Text) :
    Sound cs (plainText fuel indent blanks) := by
  -- the blanks in front of a word count only if the word is there, and are handed on until then
  induction fuel generalizing blanks with
  | zero => mvcgen [plainText]
  | succ fuel ih => mvcgen [plainText, ih] with grind

theorem forms_plainScalar : Forms cs plainScalar := by
  mvcgen [plainScalar] with grind [Token.Sound]

/-! ## Tokens -/

/-- A mark of one or more characters gives the token that it is given. -/
@[spec]
theorem sound_mark {t : Token} (h : t.Sound cs) (n : ℕ) : Sound cs (mark n t) := by
  mvcgen [mark] with grind [Lexer.push]

/-- A bracket that opens a collection may begin a key, like a node. -/
@[spec]
theorem sound_openFlow {t : Token} (h : t.Sound cs) : Sound cs (openFlow t) := by
  mvcgen [openFlow] with grind

/-- A bracket that closes no collection marks a stop. -/
@[spec]
theorem sound_closeFlow {t : Token} (h : t.Sound cs) : Sound cs (closeFlow t) := by
  mvcgen [closeFlow] with grind [Lexer.push, Token.Sound]

/-- A dash or a comma may open a block first, and then marks an entry. -/
@[spec]
theorem sound_entry : Sound cs entry := by
  mvcgen [entry] with grind [Lexer.push, Token.Sound]

/-- A question mark may open a mapping first, and then marks a key. -/
@[spec]
theorem sound_explicitKey : Sound cs explicitKey := by
  mvcgen [explicitKey] with grind [Lexer.push, Token.Sound]

/-- A token put among others is one of them. -/
@[grind →]
theorem mem_insertIdxIfInBounds {t u : Token} {ts : Array Token} {n : ℕ}
    (h : t ∈ ts.insertIdxIfInBounds n u) : t = u ∨ t ∈ ts := by
  unfold Array.insertIdxIfInBounds at h
  split_ifs at h
  · exact (Array.mem_insertIdx.1 h)
  · exact .inr h

/-- A colon turns the noted place into a key, if there is one: the tokens of the key, and of the mapping that
it opens, are put in front of what has been read since. -/
@[spec]
theorem sound_mappingValue : Sound cs mappingValue := by
  mvcgen [mappingValue] with grind [Lexer.push, Token.Sound]

/-- A node may be a key, which is noted before its token is formed. -/
theorem sound_node {scan : Scan Token} (h : Forms cs scan) : Sound cs (node scan) := by
  mvcgen [node, h] with grind [Lexer.push]

/-- What stands at the start of a line closes all blocks before its token is formed. -/
theorem sound_atTop {scan : Scan Token} (h : Forms cs scan) : Sound cs (atTop scan) := by
  mvcgen [atTop, h] with grind [Lexer.push]

theorem forms_documentMark {t : Token} (h : t.Sound cs) : Forms cs (documentMark t) := by
  mvcgen [documentMark] with grind

/-- Fetching goes by the next character to one of the steps before, or refuses it. -/
theorem sound_fetch : Sound cs fetch := by
  unfold fetch
  -- the steps that take another step as a parameter are specified for each that they are used with
  have directive : Sound cs (atTop directive) := sound_atTop forms_directive
  have start : Sound cs (atTop (documentMark .documentStart)) := sound_atTop (forms_documentMark nofun)
  have stop : Sound cs (atTop (documentMark .documentEnd)) := sound_atTop (forms_documentMark nofun)
  have reference : Sound cs (node (return .reference (← anchorName))) := sound_node (forms_anchorName nofun)
  have anchor : Sound cs (node (return .anchor (← anchorName))) := sound_node (forms_anchorName nofun)
  have tag : Sound cs (node tag) := sound_node forms_tag
  have quoted (double : Bool) : Sound cs (node (quotedScalar double)) := sound_node (forms_quotedScalar double)
  have plain : Sound cs (node plainScalar) := sound_node forms_plainScalar
  have block (folded : Bool) : Forms cs (blockScalar folded) := forms_blockScalar folded
  mvcgen [directive, start, stop, reference, anchor, tag, quoted, plain, block]
    with grind [Lexer.push, Token.Sound]

/-! ## The Whole Text -/

/-- Tokens between two places are tokens of the lexer. -/
theorem mem_tokens_of_mem_between {start stop : ℕ} {t : Token} (h : t ∈ l.between start stop) :
    t ∈ l.tokens := by
  obtain ⟨i, hi, rfl⟩ := Array.mem_extract_iff_getElem.1 (Array.mem_toList_iff.1 h)
  exact Array.getElem_mem _

/-- Each token that is given out is one that a step has formed, or marks the stop of a step. -/
theorem sound_of_mem_deliver {fuel taken : ℕ} {t : Token} (hl : l.Within cs)
    (ht : t ∈ deliver fuel taken l) : t.Sound cs := by
  -- a mark stands for what has stopped the step
  have mark {f : Fault} (hf : Unscannable cs f) : Token.Sound cs (.broken f) := by
    rintro _ ⟨⟩
    exact hf
  induction fuel generalizing taken l with
  | zero =>
    obtain rfl := List.mem_singleton.1 ht
    exact mark .malformed
  | succ fuel ih =>
    obtain ⟨dropped, stale⟩ := triple_iff_run.1 sound_dropStale l hl
    unfold deliver at ht
    split at ht
    · next f hf =>
      obtain rfl := List.mem_singleton.1 ht
      exact mark (stale f hf)
    next l' hl' =>
    replace hl' := dropped _ _ hl'
    obtain ⟨on, stops⟩ := triple_iff_run.1 sound_fetch l' hl'
    rcases List.mem_append.1 ht with ht | ht
    · exact hl'.tokens t (mem_tokens_of_mem_between ht)
    -- fetching stops, has reached the end of the text, or goes on
    split at ht
    · next f hf =>
      obtain rfl := List.mem_singleton.1 ht
      exact mark (stops f hf)
    · exact (on _ _ ‹_›).tokens t (mem_tokens_of_mem_between ht)
    · exact ih (on _ _ ‹_›) ht

/-- Where the characters of a text stop to form tokens, there is a reason: the text breaks a rule of the format,
it has an escape by number for what is no character, or a version with too many digits. -/
theorem unscannable_of_mem_scan {f : Fault} (h : .broken f ∈ Token.scan cs) : Unscannable cs f := by
  unfold Token.scan at h
  split at h
  · exact sound_of_mem_deliver ⟨List.suffix_rfl, by simp⟩ h f rfl
  · obtain rfl : f = .malformed := by simpa using h
    exact .malformed

end Yaml

end SchemaGraft
