import SchemaGraft.Proofs.Yaml.Scanning
import SchemaGraft.Yaml.Node

/-!
# Where Tokens Form No Node

Tokens that form no node are malformed, with two exceptions: the tokens may stop, for a fault of the characters,
and more collections may be open at once than are allowed.

## Architecture

- **Reasons**: `Yaml.Unreadable` lists them for tokens, with the number of collections that may still be opened.
- **Single tokens**: what each small step does to the tokens that are left, from `Yaml.Compose.spec_peek?` to
  `Yaml.Compose.spec_empty`.
- **Nodes**: `Yaml.Compose.Reads` is what the mutually recursive functions keep, which goes by induction on their
  fuel: there is one lemma for each of them, and `Yaml.Compose.readsNodes` puts them together.
- **Main result**: `Yaml.unreadable_of_ofTokens?`.
-/

namespace SchemaGraft

namespace Yaml

open Std.Do

set_option mvcgen.warning false

/-! ## Reasons -/

/-- A token with which a collection can begin. -/
def Token.opens : Token → Bool
  | .blockSequenceStart | .blockMappingStart | .flowSequenceStart | .flowMappingStart | .blockEntry => true
  | _ => false

/-- Why tokens form no node when a number of collections may be open at once. -/
inductive Unreadable (ts : List Token) (depth : ℕ) : Fault → Prop
  /-- The tokens break a rule of the format. -/
  | malformed : Unreadable ts depth .malformed
  /-- The tokens stop. -/
  | broken {f : Fault} (h : .broken f ∈ ts) : Unreadable ts depth f
  /-- So many collections are open that no further one may be. -/
  | tooDeep (h : depth ≤ ts.countP Token.opens) : Unreadable ts depth .tooDeep

attribute [grind intro] Unreadable

namespace Unreadable

variable {ts us : List Token} {depth : ℕ} {f : Fault} {t : Token}

/-- What is wrong with an end of the tokens is wrong with all of them. -/
@[grind →]
theorem of_suffix (h : Unreadable ts depth f) (hs : ts <:+ us) : Unreadable us depth f := by
  cases h with
  | malformed => exact .malformed
  | broken h => exact .broken (hs.mem h)
  | tooDeep h => exact .tooDeep (h.trans (hs.sublist.countP_le))

/-- Behind the token with which a collection begins, there is one collection less that may be opened. -/
@[grind →]
theorem opened (h : Unreadable us depth f) (ht : t.opens) : Unreadable (t :: us) (depth + 1) f := by
  cases h with
  | malformed => exact .malformed
  | broken h => exact .broken (List.mem_cons_of_mem t h)
  | tooDeep h =>
    refine .tooDeep ?_
    rw [List.countP_cons_of_pos ht]
    exact Nat.succ_le_succ h

/-- Nor does it help to have fewer levels left. -/
@[grind →]
theorem of_succ (h : Unreadable ts (depth + 1) f) : Unreadable ts depth f := by
  cases h with
  | malformed => exact .malformed
  | broken h => exact .broken h
  | tooDeep h => exact .tooDeep (Nat.le_of_succ_le h)

end Unreadable

namespace Compose

attribute [grind →] List.IsSuffix.trans

/-! ## Single Tokens -/

variable (c₀ : Composer)

/-- A refusal is for a broken rule only. -/
@[spec]
theorem spec_refuse {α : Type} :
    ⦃fun _ => ⌜True⌝⦄ (refuse : Compose α)
      ⦃post⟨fun _ _ => ⌜False⌝, fun f => ⌜f = .malformed⌝⟩⦄ :=
  fun _ _ => rfl

/-- Looking at the next token fails at the mark of a stop, with the fault that it stands for. -/
@[spec]
theorem spec_peek? :
    ⦃fun c => ⌜c = c₀⌝⦄ peek?
      ⦃post⟨fun t c => ⌜c = c₀ ∧ t = c₀.tokens.head?⌝, fun f => ⌜.broken f ∈ c₀.tokens⌝⟩⦄ := by
  obtain ⟨tokens, handles, anchors⟩ := c₀
  rintro _ ⟨⟩
  cases tokens with
  | nil => exact ⟨rfl, rfl⟩
  | cons t ts =>
    cases t with
    | broken f => exact List.mem_cons_self
    | _ => exact ⟨rfl, rfl⟩

/-- What is skipped is the next token, if there is one. -/
@[spec]
theorem spec_skip :
    ⦃fun c => ⌜c = c₀⌝⦄ skip
      ⦃post⟨fun _ c => ⌜c.tokens <:+ c₀.tokens ∧ ∀ t, c₀.tokens.head? = some t → c₀.tokens = t :: c.tokens⌝,
        fun _ => ⌜False⌝⟩⦄ := by
  mvcgen [skip] with grind [List.tail_suffix, List.head?_eq_some_iff]

/-- If one of some tokens is next, the next token is one of them. -/
@[spec]
theorem spec_isNext (ts : List Token) :
    ⦃fun c => ⌜c = c₀⌝⦄ isNext ts
      ⦃post⟨fun b c => ⌜c = c₀ ∧ (b → ∃ t ∈ ts, c₀.tokens.head? = some t)⌝,
        fun f => ⌜.broken f ∈ c₀.tokens⌝⟩⦄ := by
  mvcgen [isNext] with grind

/-- A token is read only if it is the next one. -/
@[spec]
theorem spec_accept (t : Token) :
    ⦃fun c => ⌜c = c₀⌝⦄ accept t
      ⦃post⟨fun b c => ⌜c.tokens <:+ c₀.tokens ∧ (b → c₀.tokens = t :: c.tokens)⌝,
        fun f => ⌜.broken f ∈ c₀.tokens⌝⟩⦄ := by
  mvcgen [accept] with grind

/-- Of a token that has to be there, only the end of the tokens is told. -/
@[spec]
theorem spec_expect (t : Token) :
    ⦃fun c => ⌜c = c₀⌝⦄ expect t
      ⦃post⟨fun _ c => ⌜c.tokens <:+ c₀.tokens⌝, fun f => ⌜f = .malformed ∨ .broken f ∈ c₀.tokens⌝⟩⦄ := by
  mvcgen [expect] with grind

/-! ## Tags and Anchors -/

/-- A tag may have a handle that is not declared. -/
@[spec]
theorem spec_tagName (handle : Option (List Char)) (suffix : List Char) :
    ⦃fun c => ⌜c = c₀⌝⦄ tagName handle suffix
      ⦃post⟨fun _ c => ⌜c = c₀⌝, fun f => ⌜f = .malformed⌝⟩⦄ := by
  mvcgen [tagName] with grind

/-- The anchor and the tag in front of a node come in either order. -/
@[spec]
theorem spec_properties :
    ⦃fun c => ⌜c = c₀⌝⦄ properties
      ⦃post⟨fun _ c => ⌜c.tokens <:+ c₀.tokens⌝, fun f => ⌜f = .malformed ∨ .broken f ∈ c₀.tokens⌝⟩⦄ := by
  mvcgen [properties] with grind

/-- No name is defined twice. -/
@[spec]
theorem spec_define (anchor : Option (List Char)) (meaning : Anchored) :
    ⦃fun c => ⌜c = c₀⌝⦄ define anchor meaning
      ⦃post⟨fun _ c => ⌜c.tokens = c₀.tokens⌝, fun f => ⌜f = .malformed⌝⟩⦄ := by
  mvcgen [define] with grind

@[spec]
theorem spec_complete (anchor : Option (List Char)) (n : Node) :
    ⦃fun c => ⌜c = c₀⌝⦄ complete anchor n
      ⦃post⟨fun _ c => ⌜c.tokens = c₀.tokens⌝, fun _ => ⌜False⌝⟩⦄ := by
  mvcgen [complete] with grind

/-- A name that is referred to has to be defined. -/
@[spec]
theorem spec_resolve (name : List Char) :
    ⦃fun c => ⌜c = c₀⌝⦄ resolve name
      ⦃post⟨fun _ c => ⌜c = c₀⌝, fun f => ⌜f = .malformed⌝⟩⦄ := by
  mvcgen [resolve] with grind

@[spec]
theorem spec_empty (anchor tag : Option (List Char)) :
    ⦃fun c => ⌜c = c₀⌝⦄ empty anchor tag
      ⦃post⟨fun _ c => ⌜c.tokens = c₀.tokens⌝, fun f => ⌜f = .malformed⌝⟩⦄ := by
  mvcgen [empty] with grind

/-! ## Nodes -/

/-- A step that reads some of the tokens, and fails only for a reason that they have. -/
abbrev Reads {α : Type} (depth : ℕ) (x : Compose α) (c₀ : Composer) : Prop :=
  ⦃fun c => ⌜c = c₀⌝⦄ x
    ⦃post⟨fun _ c => ⌜c.tokens <:+ c₀.tokens⌝, fun f => ⌜Unreadable c₀.tokens depth f⌝⟩⦄

/-- The functions that read nodes are steps of this kind. -/
structure ReadsNodes (fuel : ℕ) : Prop where
  node (depth : ℕ) (isBlock isValue : Bool) (c : Composer) :
    Reads depth (node fuel depth isBlock isValue) c
  nodeUnless (ends : List Token) (depth : ℕ) (isBlock isValue : Bool) (c : Composer) :
    Reads depth (nodeUnless ends fuel depth isBlock isValue) c
  blockItems (depth : ℕ) (c : Composer) : Reads depth (blockItems fuel depth) c
  -- the items of such a sequence are what opens it
  valueItems (depth : ℕ) (c : Composer) : Reads (depth + 1) (valueItems fuel depth) c
  blockEntries (depth : ℕ) (c : Composer) : Reads depth (blockEntries fuel depth) c
  flowItems (depth : ℕ) (isFirst : Bool) (c : Composer) : Reads depth (flowItems fuel depth isFirst) c
  flowEntries (depth : ℕ) (isFirst : Bool) (c : Composer) : Reads depth (flowEntries fuel depth isFirst) c

variable {fuel : ℕ}

/-- A node is read, unless one of the tokens that end its collection is next. -/
theorem reads_nodeUnless (ih : ReadsNodes fuel) (ends : List Token) (depth : ℕ) (isBlock isValue : Bool)
    (c : Composer) : Reads depth (nodeUnless ends (fuel + 1) depth isBlock isValue) c := by
  have whole := ih.node
  mvcgen [nodeUnless, whole] with grind

/-- The items of a block sequence are read one by one, each behind its mark. -/
theorem reads_blockItems (ih : ReadsNodes fuel) (depth : ℕ) (c : Composer) :
    Reads depth (blockItems (fuel + 1) depth) c := by
  have item := ih.nodeUnless
  have rest := ih.blockItems
  mvcgen [blockItems, item, rest] with grind

/-- Behind a key, the mark of the first item is what opens the sequence, so that one level more is left in
front of it. -/
theorem reads_valueItems (ih : ReadsNodes fuel) (depth : ℕ) (c : Composer) :
    Reads (depth + 1) (valueItems (fuel + 1) depth) c := by
  have item := ih.nodeUnless
  have rest := ih.valueItems
  mvcgen [valueItems, item, rest] with grind [Token.opens]

/-- The entries of a block mapping may lack a key or a value. -/
theorem reads_blockEntries (ih : ReadsNodes fuel) (depth : ℕ) (c : Composer) :
    Reads depth (blockEntries (fuel + 1) depth) c := by
  have part := ih.nodeUnless
  have rest := ih.blockEntries
  mvcgen [blockEntries, part, rest] with grind

/-- The items of a flow sequence may be pairs, which count as mappings. -/
theorem reads_flowItems (ih : ReadsNodes fuel) (depth : ℕ) (isFirst : Bool) (c : Composer) :
    Reads depth (flowItems (fuel + 1) depth isFirst) c := by
  have item := ih.node
  have part := ih.nodeUnless
  have rest := ih.flowItems
  mvcgen [flowItems, item, part, rest] with grind

/-- The entries of a flow mapping have commas between them. -/
theorem reads_flowEntries (ih : ReadsNodes fuel) (depth : ℕ) (isFirst : Bool) (c : Composer) :
    Reads depth (flowEntries (fuel + 1) depth isFirst) c := by
  have key := ih.node
  have part := ih.nodeUnless
  have rest := ih.flowEntries
  mvcgen [flowEntries, key, part, rest] with grind

/-- A node is a reference, a scalar or a collection. -/
theorem reads_node (ih : ReadsNodes fuel) (depth : ℕ) (isBlock isValue : Bool) (c : Composer) :
    Reads depth (node (fuel + 1) depth isBlock isValue) c := by
  cases depth with
  | zero =>
    -- with no level left, a node is refused whatever it is
    exact fun _ _ => Unreadable.tooDeep (Nat.zero_le _)
  | succ depth =>
    -- behind its first token, each kind of collection has one level less
    have items := ih.flowItems
    have entries := ih.flowEntries
    have block := ih.blockItems
    have value := ih.valueItems
    have mapping := ih.blockEntries
    mvcgen [node, items, entries, block, value, mapping] with grind [Token.opens]

/-- All of them are such steps, whatever fuel they have. -/
theorem readsNodes (fuel : ℕ) : ReadsNodes fuel := by
  induction fuel with
  | zero =>
    -- without fuel, each of them refuses the tokens
    constructor <;> intros <;> exact fun _ _ => Unreadable.malformed
  | succ fuel ih =>
    exact
      { node := reads_node ih
        nodeUnless := reads_nodeUnless ih
        blockItems := reads_blockItems ih
        valueItems := reads_valueItems ih
        blockEntries := reads_blockEntries ih
        flowItems := reads_flowItems ih
        flowEntries := reads_flowEntries ih }

/-! ## Documents -/

/-- Whether a directive is next is told from one token. -/
@[spec]
theorem spec_atDirective (c₀ : Composer) :
    ⦃fun c => ⌜c = c₀⌝⦄ atDirective
      ⦃post⟨fun _ c => ⌜c = c₀⌝, fun f => ⌜.broken f ∈ c₀.tokens⌝⟩⦄ := by
  mvcgen [atDirective] with grind

/-- A step between nodes, which fails only where the tokens break a rule or stop. -/
abbrev Passes {α : Type} (ts : List Token) (x : Compose α) : Prop :=
  ⦃fun c => ⌜c.tokens <:+ ts⌝⦄ x
    ⦃post⟨fun _ c => ⌜c.tokens <:+ ts⌝, fun f => ⌜f = .malformed ∨ .broken f ∈ ts⌝⟩⦄

/-- The directives in front of a document are read one by one. -/
theorem passes_directives (ts : List Token) (fuel : ℕ) (isVersioned : Bool) :
    Passes ts (directives fuel isVersioned) := by
  -- whether there was a version is handed on, since there must be no second one
  induction fuel generalizing isVersioned with
  | zero => mvcgen [directives]
  | succ fuel ih => mvcgen [directives, ih] with grind

/-- Any number of marks may end a document. -/
theorem passes_skipDocumentEnds (ts : List Token) (fuel : ℕ) : Passes ts (skipDocumentEnds fuel) := by
  induction fuel with
  | zero => mvcgen [skipDocumentEnds]
  | succ fuel ih => mvcgen [skipDocumentEnds, ih] with grind

/-- In front of a document, all levels are left. -/
theorem reads_stream (c : Composer) : Reads maxDepth stream c := by
  have directives := passes_directives c.tokens
  have ends := passes_skipDocumentEnds c.tokens
  have whole fuel := (readsNodes fuel).node maxDepth
  mvcgen [stream, directives, ends, whole] with grind

end Compose

/-- Where tokens form no node, there is a reason: they break a rule of the format, they stop, or too many
collections are open at once. -/
theorem unreadable_of_ofTokens? {ts : List Token} {f : Fault} (h : Node.ofTokens? ts = .error f) :
    Unreadable ts Compose.maxDepth f := by
  unfold Node.ofTokens? at h
  have run := triple_iff_run.1 (Compose.reads_stream { tokens := ts }) _ rfl
  rcases hstream : Compose.stream.run { tokens := ts } with g | p
  · rw [hstream] at h
    cases h
    exact run.2 f hstream
  · rw [hstream] at h
    cases h

end Yaml

end SchemaGraft
