import Mathlib.Data.List.TakeWhile
import Mathlib.Tactic
import SchemaGraft.CommandLine.Session
import SchemaGraft.Proofs.Outcome

/-!
# Which Texts Can Be Shown

Rendering a text with style tags fails only at a closing tag that matches no open one.  A text that was
escaped has no tags at all; in any other text a closing tag can only come from an opening bracket with a
slash behind it.

## Architecture

- **Tags**: `Markup.tags` are the tags that count; `Markup.exists_render` says that only they can keep a text
  from being shown.
- **Brackets**: `Markup.closes` and `Markup.tagAt?_isSome_iff`.
- **Escaping**: `Markup.exists_tags_escape`, by `Markup.exists_tags_protect`.
- **Closing tags**: `Markup.NoClosing`, with `Markup.exists_tags_append`.
- **Lines of the command line**: `Markup.exists_render_of_noClosing`, `Markup.exists_render_green`,
  `Markup.exists_render_green_escape` and `Markup.exists_render_failed`.
-/

namespace SchemaGraft

namespace Markup

/-! ## Tags -/

/-- The tags among some pieces. -/
def tagsOf (ps : List Piece) : List Text :=
  ps.filterMap fun
    | .tag t => some t
    | .plain _ => none

/-- The tags of a text; the parameters are those of `divide`. -/
def tags (slashes skip : ℕ) (t : Text) : List Text :=
  tagsOf (divide slashes skip t)

@[simp] theorem tagsOf_append (ps qs : List Piece) : tagsOf (ps ++ qs) = tagsOf ps ++ tagsOf qs :=
  List.filterMap_append

@[simp] theorem tagsOf_plain (t : Text) (ps : List Piece) : tagsOf (.plain t :: ps) = tagsOf ps := rfl

@[simp] theorem tagsOf_extend (c : Codepoint) (ps : List Piece) :
    tagsOf (extend c ps) = tagsOf ps := by
  cases ps with
  | nil => rfl
  | cons p rest => cases p <;> rfl

/-- Plain characters in front of pieces add no tag. -/
theorem tagsOf_foldr_extend (t : Text) (ps : List Piece) :
    tagsOf (t.foldr extend ps) = tagsOf ps := by
  induction t with
  | nil => rfl
  | cons c rest ih => rw [List.foldr_cons, tagsOf_extend, ih]

/-- A tag does not count behind an odd number of backslashes. -/
theorem tagsOf_tagPieces (slashes : ℕ) (tag : Text) :
    tagsOf (tagPieces slashes tag) = if slashes % 2 = 1 then [] else [tag] := by
  rw [tagPieces, tagsOf_append]
  split <;> split <;> rfl

theorem tags_nil (slashes skip : ℕ) : tags slashes skip [] = [] := by
  rw [tags, divide]
  split <;> rfl

theorem tags_skip (slashes skip : ℕ) (c : Codepoint) (rest : Text) :
    tags slashes (skip + 1) (c :: rest) = tags 0 skip rest := rfl

/-- What is skipped has no tags. -/
theorem tags_skip_append (front back : Text) :
    tags 0 front.length (front ++ back) = tags 0 0 back := by
  induction front with
  | nil => rfl
  | cons c rest ih => rw [List.length_cons, List.cons_append, tags_skip, ih]

/-- A backslash is counted, and may protect a tag behind it. -/
theorem tags_backslash (slashes : ℕ) (rest : Text) :
    tags slashes 0 (.scalar '\\' :: rest) = tags (slashes + 1) 0 rest := rfl

/-- A tag that stands here is skipped as a whole. -/
theorem tags_of_tag {slashes : ℕ} {c : Codepoint} {rest tag after : Text} (hc : c ≠ .scalar '\\')
    (h : tagAt? (c :: rest) = some (tag, after)) :
    tags slashes 0 (c :: rest) =
      (if slashes % 2 = 1 then [] else [tag]) ++ tags 0 (tag.length + 1) rest := by
  rw [tags, divide, if_neg hc, h]
  dsimp only
  rw [tagsOf_append, tagsOf_tagPieces, tagsOf_plain, tags]

/-- A character that starts no tag is skipped. -/
theorem tags_of_none {slashes : ℕ} {c : Codepoint} {rest : Text} (hc : c ≠ .scalar '\\')
    (h : tagAt? (c :: rest) = none) : tags slashes 0 (c :: rest) = tags 0 0 rest := by
  rw [tags, divide, if_neg hc, h]
  dsimp only
  rw [tagsOf_foldr_extend, tagsOf_extend, tags]

/-- Backslashes in a row are counted one by one. -/
theorem tags_append_backslashes (slashes n : ℕ) (t : Text) :
    tags slashes 0 (backslashes n ++ t) = tags (slashes + n) 0 t := by
  induction n generalizing slashes with
  | zero => rfl
  | succ n ih =>
    rw [backslashes, List.replicate_succ, List.cons_append, tags_backslash, ← backslashes, ih]
    congr 1
    omega

/-- The open styles after some tags. -/
def followAll (stack : List Text) (ts : List Text) : Except MarkupFault (List Text) :=
  ts.foldlM follow stack

/-- Whether some pieces can be rendered depends on their tags alone, and so does the fault. -/
theorem renderPieces_eq (stack : List Text) (ps : List Piece) :
    (renderPieces stack ps).map (fun _ => Unit.unit) =
      (followAll stack (tagsOf ps)).map fun _ => Unit.unit := by
  induction ps generalizing stack with
  | nil => rfl
  | cons p rest ih =>
    -- a plain piece is shown in any case, and a tag goes on with another stack or fails at once
    cases p with
    | plain t =>
      rw [renderPieces, tagsOf_plain, ← ih]
      cases renderPieces stack rest <;> rfl
    | tag t =>
      have htags : tagsOf (.tag t :: rest) = t :: tagsOf rest := rfl
      rw [renderPieces, htags, followAll, List.foldlM_cons]
      cases follow stack t with
      | error f => rfl
      | ok stack' => exact ih stack'

/-- A text can be shown when its tags can be followed. -/
theorem exists_render {t : Text} (h : ∃ stack, followAll [] (tags 0 0 t) = .ok stack) :
    ∃ u, render t = .ok u := by
  obtain ⟨stack, hstack⟩ := h
  have heq := renderPieces_eq [] (pieces t)
  rw [pieces, ← tags, hstack] at heq
  rw [render, pieces]
  cases hrender : renderPieces [] (divide 0 0 t) with
  | ok u => exact ⟨u, rfl⟩
  | error f =>
    rw [hrender] at heq
    cases heq

/-! ## Brackets -/

def isBracket (c : Codepoint) : Bool :=
  c == .scalar '[' || c == .scalar ']'

/-- Is the first bracket of the text a closing one? -/
def closes : Text → Bool
  | [] => false
  | c :: rest => if isBracket c then c == .scalar ']' else closes rest

/-- More backslashes in a row. -/
theorem backslashes_add (m n : ℕ) : backslashes (m + n) = backslashes m ++ backslashes n :=
  List.replicate_add ..

/-- Backslashes are no brackets. -/
theorem closes_append_backslashes (n : ℕ) (t : Text) : closes (backslashes n ++ t) = closes t := by
  induction n with
  | zero => rfl
  | succ n ih => exact ih

theorem isBracket_eq_false_iff {d : Codepoint} :
    isBracket d = false ↔ d ≠ .scalar '[' ∧ d ≠ .scalar ']' := by
  simp [isBracket]

/-- No bracket starts a tag. -/
theorem isBracket_of_startsTag {c : Codepoint} (h : startsTag c = true) : isBracket c = false := by
  rw [isBracket_eq_false_iff]
  constructor
  all_goals
    rintro rfl
    revert h
    decide

/-- Can the text stand between brackets as a tag? -/
def isTag : Text → Bool
  | [] => false
  | c :: body => startsTag c && body.all fun d => !isBracket d

theorem isTag_cons_iff {c : Codepoint} {body : Text} :
    isTag (c :: body) = true ↔ startsTag c = true ∧ ∀ d ∈ body, isBracket d = false := by
  rw [isTag, Bool.and_eq_true, List.all_eq_true]
  simp

/-- There are no brackets in a tag. -/
theorem noBracket_of_isTag {tag : Text} (h : isTag tag = true) : ∀ d ∈ tag, isBracket d = false := by
  cases tag with
  | nil => cases h
  | cons c body =>
    obtain ⟨hstarts, hbody⟩ := isTag_cons_iff.mp h
    exact List.forall_mem_cons.mpr ⟨isBracket_of_startsTag hstarts, hbody⟩

/-- A tag in brackets, with what stands behind it. -/
theorem written_append (tag rest : Text) :
    written tag ++ rest = .scalar '[' :: (tag ++ .scalar ']' :: rest) := by
  rw [written, List.append_assoc]
  rfl

/-- A tag stands here exactly when the text starts with the tag in brackets. -/
theorem tagAt?_eq_some_iff {t tag after : Text} :
    tagAt? t = some (tag, after) ↔ isTag tag = true ∧ t = written tag ++ after := by
  rw [written_append]
  constructor
  · intro h
    rw [tagAt?.eq_def] at h
    split at h
    · next c rest =>
      split at h
      · next hstarts =>
        dsimp only at h
        split at h
        · next after' hafter =>
          cases h
          -- the body and what is left after it make up the text
          have hfront := List.prefix_iff_eq_append.mp (List.takeWhile_prefix (l := rest)
            fun d : Codepoint => d ≠ .scalar '[' ∧ d ≠ .scalar ']')
          refine ⟨isTag_cons_iff.mpr ⟨hstarts, fun d hd => ?_⟩, ?_⟩
          · exact isBracket_eq_false_iff.mpr (by simpa using List.mem_takeWhile_imp hd)
          · rw [← hafter, List.cons_append, hfront]
        · cases h
      · cases h
    · cases h
  · rintro ⟨htag, rfl⟩
    cases tag with
    | nil => cases htag
    | cons c body =>
      obtain ⟨hstarts, hbody⟩ := isTag_cons_iff.mp htag
      have hpos : ∀ d ∈ body, decide (d ≠ .scalar '[' ∧ d ≠ .scalar ']') = true :=
        fun d hd => decide_eq_true (isBracket_eq_false_iff.mp (hbody d hd))
      -- the body has no bracket, so that it ends at the bracket behind it
      have hfront : (body ++ .scalar ']' :: after).takeWhile
          (fun d => d ≠ .scalar '[' ∧ d ≠ .scalar ']') = body := by
        rw [List.takeWhile_append_of_pos hpos, List.takeWhile_cons_of_neg (by simp), List.append_nil]
      rw [List.cons_append, tagAt?, if_pos hstarts]
      dsimp only
      rw [hfront, List.drop_left]
      rfl

/-- The first bracket is a closing one when a text without brackets stands in front of one. -/
theorem closes_iff {t : Text} :
    closes t = true ↔ ∃ body after, (∀ d ∈ body, isBracket d = false) ∧
      t = body ++ .scalar ']' :: after := by
  -- on the text up to its first bracket, which has to be the closing one
  induction t with
  | nil => simp [closes]
  | cons c rest ih =>
    rw [closes]
    split
    · next hc =>
      rw [beq_iff_eq]
      constructor
      · rintro rfl
        exact ⟨[], rest, by simp, rfl⟩
      · rintro ⟨body, after, hbody, heq⟩
        cases body with
        | nil => exact (List.cons.inj heq).1
        | cons d body =>
          rw [(List.cons.inj heq).1, hbody d List.mem_cons_self] at hc
          cases hc
    · next hc =>
      rw [ih]
      constructor
      · rintro ⟨body, after, hbody, rfl⟩
        exact ⟨c :: body, after, List.forall_mem_cons.mpr ⟨by simpa using hc, hbody⟩, rfl⟩
      · rintro ⟨body, after, hbody, heq⟩
        cases body with
        | nil =>
          rw [(List.cons.inj heq).1] at hc
          exact absurd rfl hc
        | cons d body =>
          exact ⟨body, after, (List.forall_mem_cons.mp hbody).2, (List.cons.inj heq).2⟩

/-- There is a tag where an opening bracket stands in front of a character that starts one, and the next
bracket is a closing one. -/
theorem tagAt?_isSome_iff {c : Codepoint} {rest : Text} :
    (tagAt? (.scalar '[' :: c :: rest)).isSome ↔ startsTag c = true ∧ closes rest = true := by
  rw [closes_iff, Option.isSome_iff_exists]
  constructor
  · rintro ⟨⟨tag, after⟩, h⟩
    obtain ⟨htag, heq⟩ := tagAt?_eq_some_iff.mp h
    rw [written_append] at heq
    -- a tag is never empty
    cases tag with
    | nil => cases htag
    | cons d body =>
      obtain ⟨rfl, hrest⟩ := List.cons.inj (List.cons.inj heq).2
      obtain ⟨hstarts, hbody⟩ := isTag_cons_iff.mp htag
      exact ⟨hstarts, body, after, hbody, hrest⟩
  · rintro ⟨hstarts, body, after, hbody, rfl⟩
    refine ⟨(c :: body, after), tagAt?_eq_some_iff.mpr ⟨isTag_cons_iff.mpr ⟨hstarts, hbody⟩, ?_⟩⟩
    rw [written_append]
    rfl

/-- A tag starts with an opening bracket. -/
theorem tagAt?_eq_none {c : Codepoint} (hc : c ≠ .scalar '[') (rest : Text) :
    tagAt? (c :: rest) = none := by
  rw [Option.eq_none_iff_forall_ne_some]
  rintro ⟨tag, after⟩ htag
  exact hc (List.cons.inj (tagAt?_eq_some_iff.mp htag).2).1

/-- A tag counts unless an odd number of backslashes stands in front of it. -/
theorem tags_written {tag : Text} (htag : isTag tag = true) (slashes : ℕ) (rest : Text) :
    tags slashes 0 (written tag ++ rest) =
      (if slashes % 2 = 1 then [] else [tag]) ++ tags 0 0 rest := by
  have hat : tagAt? (written tag ++ rest) = some (tag, rest) := tagAt?_eq_some_iff.mpr ⟨htag, rfl⟩
  have hskip : tags 0 (tag.length + 1) (tag ++ .scalar ']' :: rest) = tags 0 0 rest := by
    have happend := tags_skip_append (tag ++ [.scalar ']']) rest
    rwa [List.length_append, List.append_assoc] at happend
  rw [written_append] at hat ⊢
  rw [tags_of_tag (by decide) hat, hskip]

/-- Text without opening brackets and backslashes has no tags. -/
theorem tags_append_plain {front : Text} (h : ∀ c ∈ front, c ≠ .scalar '[' ∧ c ≠ .scalar '\\')
    (rest : Text) : tags 0 0 (front ++ rest) = tags 0 0 rest := by
  induction front with
  | nil => rfl
  | cons c front ih =>
    obtain ⟨hc, hfront⟩ := List.forall_mem_cons.mp h
    rw [List.cons_append, tags_of_none hc.2 (tagAt?_eq_none hc.1 _), ih hfront]

/-! ## Escaping -/

/-- A text that ends no tag and continues none: it does not close one, nor can one start with it. -/
structure Stops (t : Text) : Prop where
  closes : closes t = false
  starts : ∀ c ∈ t.head?, startsTag c = false

theorem stops_nil : Stops [] := ⟨rfl, by simp⟩

/-- Backslashes in front do not change that. -/
theorem Stops.backslashes {t : Text} (h : Stops t) (n : ℕ) : Stops (backslashes n ++ t) where
  closes := (closes_append_backslashes n t).trans h.closes
  starts := by
    cases n with
    | zero => exact h.starts
    | succ n =>
      intro c hc
      cases hc
      rfl

/-- A tag stops what stands in front of it. -/
theorem stops_written (tag rest : Text) : Stops (written tag ++ rest) where
  closes := rfl
  starts := by
    intro c hc
    cases hc
    rfl

/-- Escaping keeps which bracket comes first. -/
theorem closes_protect {back : Text} (hback : Stops back) (slashes : ℕ) (t : Text) :
    closes (protect slashes 0 t ++ back) = closes t := by
  induction t generalizing slashes with
  | nil => rw [protect, closes_append_backslashes, hback.closes, closes]
  | cons c rest ih =>
    rw [protect]
    split
    · next hc =>
      subst hc
      rw [ih]
      rfl
    · split
      · next tag after htag =>
        -- a tag starts with an opening bracket, and still does with backslashes in front of it
        rw [(List.cons.inj (tagAt?_eq_some_iff.mp htag).2).1, List.append_assoc, List.append_assoc,
          closes_append_backslashes]
        rfl
      · rw [List.append_assoc, closes_append_backslashes, List.cons_append, closes, closes, ih]

/-- The backslashes in front of a text stay in front of it. -/
theorem exists_protect_eq (slashes : ℕ) (t : Text) :
    ∃ u, protect slashes 0 t = backslashes slashes ++ u := by
  -- on the text: backslashes read so far are written out before anything else
  induction t generalizing slashes with
  | nil => exact ⟨[], (List.append_nil _).symm⟩
  | cons c rest ih =>
    rw [protect]
    split
    · obtain ⟨u, hu⟩ := ih (slashes + 1)
      exact ⟨backslashes 1 ++ u, by rw [hu, backslashes_add, List.append_assoc]⟩
    · split
      · next tag after htag =>
        refine ⟨backslashes (slashes + 1) ++ (written tag ++ protect 0 (tag.length + 1) rest), ?_⟩
        rw [two_mul, Nat.add_assoc, backslashes_add, List.append_assoc, List.append_assoc]
      · exact ⟨_, rfl⟩

/-- A backslash starts no tag. -/
theorem tagAt?_backslash (t : Text) : tagAt? (.scalar '[' :: .scalar '\\' :: t) = none := rfl

/-- Escaping what follows an opening bracket makes no new tag. -/
theorem tagAt?_protect {back : Text} (hback : Stops back) {c : Codepoint} {rest : Text}
    (h : tagAt? (c :: rest) = none) : tagAt? (c :: (protect 0 0 rest ++ back)) = none := by
  by_cases hc : c = .scalar '['
  · subst hc
    cases rest with
    | nil =>
      -- what follows does not start a tag
      cases back with
      | nil => rfl
      | cons d back =>
        show tagAt? (.scalar '[' :: d :: back) = none
        rw [← Option.not_isSome_iff_eq_none, tagAt?_isSome_iff, hback.starts d rfl]
        simp
    | cons d rest =>
      rw [protect]
      split
      · obtain ⟨u, hu⟩ := exists_protect_eq 1 rest
        rw [Nat.zero_add, hu]
        exact tagAt?_backslash _
      · split
        · exact tagAt?_backslash _
        · -- the next bracket is the same as before
          show tagAt? (.scalar '[' :: d :: (protect 0 0 rest ++ back)) = none
          rw [← Option.not_isSome_iff_eq_none, tagAt?_isSome_iff] at h ⊢
          rwa [closes_protect hback]
  · exact tagAt?_eq_none hc _

/-- An escaped text has no tags of its own; it may put backslashes in front of what follows. -/
theorem exists_tags_protect {back : Text} (hback : Stops back) (slashes skip : ℕ) (t : Text) :
    ∃ n, tags 0 0 (protect slashes skip t ++ back) = tags n 0 back := by
  induction t generalizing slashes skip with
  | nil => exact ⟨0 + slashes, by rw [protect, tags_append_backslashes]⟩
  | cons c rest ih =>
    cases skip with
    | succ skip => exact ih 0 skip
    | zero =>
      rw [protect]
      split
      · exact ih (slashes + 1) 0
      · next hc =>
        split
        · next tag after htag =>
          -- an odd number of backslashes stands in front of the tag
          rw [List.append_assoc, List.append_assoc, tags_append_backslashes,
            tags_written (tagAt?_eq_some_iff.mp htag).1, if_pos (by omega)]
          exact ih 0 _
        · next htag =>
          rw [List.append_assoc, List.cons_append, tags_append_backslashes,
            tags_of_none hc (tagAt?_protect hback htag)]
          exact ih 0 0

/-- **An escaped text has no tags**, whatever follows it. -/
theorem exists_tags_escape {back : Text} (hback : Stops back) (t : Text) :
    ∃ n, tags 0 0 (escape t ++ back) = tags n 0 back := by
  have hsafe := exists_tags_protect hback 0 0 t
  rw [escape]
  split
  · exact hsafe
  -- a backslash is put behind the text, where it counts as one more
  · obtain ⟨n, hn⟩ := exists_tags_protect (hback.backslashes 1) 0 0 t
    rw [tags_append_backslashes] at hn
    exact ⟨n + 1, by rw [List.append_assoc, hn]⟩
  · exact hsafe

/-- On its own, an escaped text has no tags at all. -/
theorem tags_escape (t : Text) : tags 0 0 (escape t) = [] := by
  obtain ⟨n, hn⟩ := exists_tags_escape stops_nil t
  rwa [List.append_nil, tags_nil] at hn

/-! ## Closing Tags -/

/-- Could the tag open a style? -/
def opens (tag : Text) : Prop :=
  tag.head? ≠ some (.scalar '/')

/-- No closing tag can start in the text: no slash stands behind an opening bracket. -/
def NoClosing (t : Text) : Prop :=
  t.IsChain fun c d => c = .scalar '[' → d ≠ .scalar '/'

instance (t : Text) : Decidable (NoClosing t) :=
  inferInstanceAs (Decidable (t.IsChain _))

/-- Two texts make no closing tag where they meet, unless one ends in the bracket and the other starts with
the slash. -/
theorem NoClosing.append {s t : Text} (hs : NoClosing s) (ht : NoClosing t)
    (h : s.getLast? ≠ some (.scalar '[') ∨ t.head? ≠ some (.scalar '/')) : NoClosing (s ++ t) := by
  refine List.isChain_append.mpr ⟨hs, ht, fun c hc d hd hopen hslash => ?_⟩
  rw [Option.mem_def] at hc hd
  rw [hopen] at hc
  rw [hslash] at hd
  exact h.elim (fun h => h hc) fun h => h hd

/-- A tag ends before what follows the text, if that starts with a bracket of its own. -/
theorem prefix_of_noOpening {back rest body after : Text} (hback : ∀ c ∈ back.head?, c = .scalar '[')
    (hbody : ∀ d ∈ body, isBracket d = false) (heq : rest ++ back = body ++ .scalar ']' :: after) :
    body ++ [.scalar ']'] <+: rest := by
  -- on the body: the bracket that closes it comes before the opening one behind the text
  induction body generalizing rest with
  | nil =>
    cases rest with
    | nil =>
      rw [List.nil_append, List.nil_append] at heq
      rw [heq] at hback
      cases hback _ rfl
    | cons c rest =>
      rw [(List.cons.inj heq).1]
      exact ⟨rest, rfl⟩
  | cons d body ih =>
    obtain ⟨hd, htail⟩ := List.forall_mem_cons.mp hbody
    cases rest with
    | nil =>
      rw [List.nil_append] at heq
      rw [heq] at hback
      rw [hback d rfl] at hd
      cases hd
    | cons c rest =>
      obtain ⟨hc, hrest⟩ := List.cons.inj heq
      rw [hc]
      exact List.cons_prefix_cons.mpr ⟨rfl, ih htail hrest⟩

/-- The tags of a text in which no closing tag can start, when another text follows that is empty or starts
with a bracket. -/
theorem exists_tags_append {back : Text} (hback : ∀ c ∈ back.head?, c = .scalar '[') {t : Text}
    (ht : NoClosing t) (slashes : ℕ) {skip : ℕ} (hskip : skip ≤ t.length) :
    ∃ ts slashes', (∀ tag ∈ ts, opens tag) ∧
      tags slashes skip (t ++ back) = ts ++ tags slashes' 0 back := by
  induction t generalizing slashes skip with
  | nil =>
    rw [Nat.le_zero.mp hskip]
    exact ⟨[], slashes, by simp, rfl⟩
  | cons c rest ih =>
    have hrest : NoClosing rest := List.IsChain.tail ht
    rw [List.cons_append]
    cases skip with
    | succ skip => exact ih hrest 0 (Nat.le_of_succ_le_succ hskip)
    | zero =>
      by_cases hc : c = .scalar '\\'
      · subst hc
        exact ih hrest (slashes + 1) (Nat.zero_le _)
      · cases htag : tagAt? (c :: (rest ++ back)) with
        | none =>
          rw [tags_of_none hc htag]
          exact ih hrest 0 (Nat.zero_le _)
        | some found =>
          obtain ⟨tag, after⟩ := found
          obtain ⟨hisTag, htext⟩ := tagAt?_eq_some_iff.mp htag
          rw [written_append] at htext
          obtain ⟨rfl, heq⟩ := List.cons.inj htext
          -- the tag ends before what follows, which starts with a bracket of its own
          have hfront := prefix_of_noOpening hback (noBracket_of_isTag hisTag) heq
          have hlength : tag.length + 1 ≤ rest.length := by
            simpa using hfront.length_le
          obtain ⟨ts, slashes', hts, htags⟩ := ih hrest 0 hlength
          rw [tags_of_tag hc htag, htags, ← List.append_assoc]
          refine ⟨_, slashes', List.forall_mem_append.mpr ⟨fun found hmem => ?_, hts⟩, rfl⟩
          have hopens : opens tag := by
            obtain ⟨r, rfl⟩ := hfront
            cases tag with
            | nil => cases hisTag
            | cons d body => simpa [opens] using (List.isChain_cons_cons.mp ht).1 rfl
          split at hmem
          · cases hmem
          · rwa [List.mem_singleton.mp hmem]

/-- A tag that is no closing one opens a style. -/
theorem follow_of_opens {tag : Text} (h : opens tag) (stack : List Text) :
    ∃ style, follow stack tag = .ok (style :: stack) := by
  -- a tag that opens a style has no slash in front of its name
  have hname : (tagName tag).head? ≠ some (.scalar '/') := by
    cases tag with
    | nil => simp [tagName, Text.cutAt]
    | cons c rest =>
      rw [tagName, Text.cutAt]
      split
      · simp
      · exact h
  rw [follow.eq_def]
  split
  · next hslash =>
    rw [hslash] at hname
    exact absurd rfl hname
  · exact ⟨_, rfl⟩

/-- Opening tags can always be followed. -/
theorem followAll_of_opens {ts : List Text} (h : ∀ tag ∈ ts, opens tag) (stack : List Text) :
    ∃ opened, followAll stack ts = .ok (opened ++ stack) := by
  induction ts generalizing stack with
  | nil => exact ⟨[], rfl⟩
  | cons tag rest ih =>
    obtain ⟨htag, hrest⟩ := List.forall_mem_cons.mp h
    obtain ⟨style, hstyle⟩ := follow_of_opens htag stack
    obtain ⟨opened, hopened⟩ := ih hrest (style :: stack)
    -- the style that is opened first lies below the others
    refine ⟨opened ++ [style], ?_⟩
    rw [followAll, List.foldlM_cons, hstyle, List.append_assoc]
    exact hopened

/-- Tags are followed in order. -/
theorem followAll_append (stack : List Text) (ts us : List Text) :
    followAll stack (ts ++ us) = followAll stack ts >>= fun stack => followAll stack us :=
  List.foldlM_append

/-! ## Lines of the Command Line -/

/-- A text in which no closing tag can start can be shown. -/
theorem exists_render_of_noClosing {t : Text} (h : NoClosing t) : ∃ u, render t = .ok u := by
  have hback : ∀ c ∈ ([] : Text).head?, c = .scalar '[' := by simp
  obtain ⟨ts, slashes, hts, htags⟩ := exists_tags_append hback h 0 (Nat.zero_le _)
  obtain ⟨opened, hopened⟩ := followAll_of_opens hts []
  rw [List.append_nil, tags_nil, List.append_nil] at htags
  exact exists_render ⟨_, by rw [htags]; exact hopened⟩

/-- The tag that opens a green line counts. -/
theorem tags_green (rest : Text) :
    tags 0 0 (Text.ofString "[green]" ++ rest) = Text.ofString "green" :: tags 0 0 rest :=
  tags_written (by decide : isTag (Text.ofString "green") = true) 0 rest

/-- The tag that closes a green line counts unless an odd number of backslashes stands in front of it. -/
theorem tags_endGreen (slashes : ℕ) : tags slashes 0 (Text.ofString "[/green]") =
    if slashes % 2 = 1 then [] else [Text.ofString "/green"] :=
  (tags_written (by decide : isTag (Text.ofString "/green") = true) slashes []).trans (List.append_nil _)

/-- A green line can be shown when no closing tag can start in it. -/
theorem exists_render_green {t : Text} (h : NoClosing t) :
    ∃ u, render ("[green]" ++ t ++ "[/green]") = .ok u := by
  have hback : ∀ c ∈ (Text.ofString "[/green]").head?, c = .scalar '[' := by decide
  obtain ⟨ts, slashes, hts, htags⟩ := exists_tags_append hback h 0 (Nat.zero_le _)
  obtain ⟨opened, hopened⟩ := followAll_of_opens hts [Text.ofString "green"]
  have hfollow : follow [] (Text.ofString "green") = .ok [Text.ofString "green"] := rfl
  -- the colour is opened, the text follows its own tags, and the colour is closed
  refine exists_render ?_
  rw [List.append_assoc, tags_green, htags, tags_endGreen, followAll, List.foldlM_cons, hfollow, Except.ok_bind,
    ← followAll, followAll_append, hopened, Except.ok_bind]
  split
  · exact ⟨_, rfl⟩
  · -- the style that is closed is open, below those that the text has opened
    have hcontains : (opened ++ [Text.ofString "green"]).contains (Text.ofString "green") = true := by
      simp
    have hfollow (stack : List Text) : follow stack (Text.ofString "/green") =
        if stack.contains (Text.ofString "green") then .ok (stack.erase (Text.ofString "green"))
        else .error (.unmatched (Text.ofString "/green")) := rfl
    rw [followAll, List.foldlM_cons, hfollow, if_pos hcontains]
    exact ⟨_, rfl⟩

/-- An escaped text can be shown in a green line. -/
theorem exists_render_green_escape {front : Text}
    (hfront : ∀ c ∈ front, c ≠ .scalar '[' ∧ c ≠ .scalar '\\') (t : Text) :
    ∃ u, render ("[green]" ++ (front ++ escape t) ++ "[/green]") = .ok u := by
  have hstops : Stops (Text.ofString "[/green]") := stops_written (Text.ofString "/green") []
  obtain ⟨n, hn⟩ := exists_tags_escape hstops t
  refine exists_render ?_
  rw [List.append_assoc, tags_green, List.append_assoc, tags_append_plain hfront, hn, tags_endGreen]
  split
  · exact ⟨_, rfl⟩
  · exact ⟨_, rfl⟩

/-- An escaped text can be shown behind the mark of a failure. -/
theorem exists_render_failed (t : Text) : ∃ u, render ("[red]Failed:[/red] " ++ escape t) = .ok u := by
  have hred : isTag (Text.ofString "red") = true := by decide
  have hslash : isTag (Text.ofString "/red") = true := by decide
  have hopen (rest : Text) : tags 0 0 (Text.ofString "[red]" ++ rest) =
      Text.ofString "red" :: tags 0 0 rest := tags_written hred 0 rest
  have hclose (rest : Text) : tags 0 0 (Text.ofString "[/red]" ++ rest) =
      Text.ofString "/red" :: tags 0 0 rest := tags_written hslash 0 rest
  -- the line is a tag, a word, a tag again, a blank, and the text
  have hparts : Text.ofString "[red]Failed:[/red] " ++ escape t = Text.ofString "[red]" ++
      (Text.ofString "Failed:" ++ (Text.ofString "[/red]" ++ (Text.ofString " " ++ escape t))) := rfl
  have htags : tags 0 0 (Text.ofString "[red]Failed:[/red] " ++ escape t) =
      [Text.ofString "red", Text.ofString "/red"] := by
    rw [hparts, hopen, tags_append_plain (by decide), hclose, tags_append_plain (by decide),
      tags_escape]
  exact exists_render ⟨[], by rw [htags]; rfl⟩

end Markup

end SchemaGraft
