import SchemaGraft.Extraction
import SchemaGraft.Generation
import SchemaGraft.Proofs.Generator.Writing
import SchemaGraft.Proofs.Text.Replacing

/-!
# Filling Templates

A part of a template is filled verbatim when every placeholder that stands in it gets its value and all other
text is kept.  The placeholders are replaced one name after the other, in a text that already holds the
values of the names before.  The result is the verbatim one exactly as long as no placeholder arises in this
text that does not stand in the template.

## Architecture

- **Placeholders**: names without braces, whose placeholders never overlap.
- **Pieces**: `Template.pieces` reads a part; nothing is lost (`flatMap_shown_pieces`) and every placeholder
  is found (`count_pieces`).  `Template.verbatim` is the specification.
- **One name**: `Template.replaceAll_shown_iff`, from `Text.replaceAll_plug_iff`.
- **All names**: `Template.Undisturbed`, with `Template.fill_eq_iff_undisturbed`.
- **Two names**: `Template.FilledTwo`, for the commands of the generator and the extractor.
- **Main result**: `Template.filled_verbatim`.
-/

namespace SchemaGraft

namespace Template

open Text (occurrences plug)

/-! ## Placeholders -/

def openingBrace : Codepoint := .scalar '\x7b'

def closingBrace : Codepoint := .scalar '\x7d'

/-- A name without braces. -/
structure IsName (name : Text) : Prop where
  noOpening : openingBrace ∉ name
  noClosing : closingBrace ∉ name

variable {n m t v : Text} {names : List Text} {c : Codepoint}

/-- A placeholder is its name between braces. -/
theorem placeholder_eq (n : Text) : placeholder n = openingBrace :: (n ++ [closingBrace]) := rfl

theorem placeholder_ne_nil (n : Text) : placeholder n ≠ [] := List.cons_ne_nil _ _

/-- Only the first code point of a placeholder is an opening brace. -/
theorem IsName.openingBrace_notMem (h : IsName n) : openingBrace ∉ n ++ [closingBrace] := by
  rw [List.mem_append, List.mem_singleton, not_or]
  exact ⟨h.noOpening, by decide⟩

/-- Where a name ends at the first closing brace, no other name ends. -/
theorem closed_prefix_iff (hn : closingBrace ∉ n) (hm : closingBrace ∉ m) :
    n ++ [closingBrace] <+: m ++ closingBrace :: t ↔ n = m := by
  induction n generalizing m with
  | nil =>
    cases m with
    | nil => simp
    | cons b m =>
      rw [List.mem_cons, not_or] at hm
      simp [hm.1]
  | cons a n ih =>
    rw [List.mem_cons, not_or] at hn
    cases m with
    | nil => simp [Ne.symm hn.1]
    | cons b m =>
      rw [List.mem_cons, not_or] at hm
      -- neither name has ended yet, and they agree as long as the text does
      rw [List.cons_append, List.cons_append, List.cons_prefix_cons, ih hn.2 hm.2, List.cons.injEq]

/-- Where a placeholder stands, there is no other. -/
theorem placeholder_prefix_iff (hn : IsName n) (hm : IsName m) :
    placeholder n <+: placeholder m ++ t ↔ n = m := by
  rw [placeholder_eq, placeholder_eq, List.cons_append, List.cons_prefix_cons, List.append_assoc]
  simpa using closed_prefix_iff hn.noClosing hm.noClosing

/-- In front of a text, a placeholder adds one occurrence to its own, and none to those of other names. -/
theorem occurrences_placeholder_append (hn : IsName n) (hm : IsName m) (t : Text) :
    occurrences (placeholder n) (placeholder m ++ t) =
      occurrences (placeholder n) t + if n = m then 1 else 0 := by
  have hrest : occurrences (placeholder n) (m ++ [closingBrace] ++ t) = occurrences (placeholder n) t :=
    Text.occurrences_append_of_notMem hm.openingBrace_notMem t
  have hcons : placeholder m ++ t = openingBrace :: (m ++ [closingBrace] ++ t) := rfl
  have hfront := placeholder_prefix_iff (t := t) hn hm
  rw [hcons] at hfront ⊢
  rw [Text.occurrences_cons, hrest]
  simp only [hfront]

/-! ## Pieces -/

/-- A piece of a template: a code point that stands for itself, or the place of a value. -/
inductive Piece where
  | char (c : Codepoint)
  | hole (name : Text)
deriving DecidableEq

/-- The pieces of a part from left to right, with a hole for each placeholder of one of the names. -/
def pieces (names : List Text) (part : Text) : List Piece :=
  go 0 part
where
  /-- Reads on after dropping `skip` code points of a placeholder that was just found. -/
  go : ℕ → Text → List Piece
    | _, [] => []
    | skip + 1, _ :: rest => go skip rest
    | 0, c :: rest =>
      match names.find? fun n => (placeholder n).isPrefixOf (c :: rest) with
      | some n => .hole n :: go ((placeholder n).length - 1) rest
      | none => .char c :: go 0 rest

/-- What is shown of a piece when these names have values. -/
def Piece.shown (values : List (Text × Text)) : Piece → Text
  | .char c => [c]
  | .hole n => (Json.lookup n values).getD (placeholder n)

/-- A part with its placeholders replaced by the values, and all other text kept. -/
def verbatim (values : List (Text × Text)) (part : Text) : Text :=
  (pieces (Json.names values) part).flatMap (Piece.shown values)

/-- Pieces are counted in the same way. -/
theorem count_hole_cons (n m : Text) (ps : List Piece) :
    (Piece.hole m :: ps).count (.hole n) = ps.count (.hole n) + if n = m then 1 else 0 := by
  by_cases h : n = m
  · simp [h]
  · simp [h, Ne.symm h]

/-- What belongs to a placeholder that was read is skipped. -/
theorem pieces_go (names : List Text) (skip : ℕ) (t : Text) :
    pieces.go names skip t = pieces names (t.drop skip) := by
  induction t generalizing skip with
  | nil => cases skip <;> rfl
  | cons c rest ih =>
    cases skip with
    | zero => rfl
    | succ skip => exact ih skip

/-- A character at which no placeholder stands is a piece of its own. -/
theorem pieces_char (h : ∀ n ∈ names, ¬placeholder n <+: c :: t) :
    pieces names (c :: t) = .char c :: pieces names t := by
  have hfind : names.find? (fun n => (placeholder n).isPrefixOf (c :: t)) = none := by
    rw [List.find?_eq_none]
    simpa only [List.isPrefixOf_iff_prefix] using h
  rw [pieces, pieces.go, hfind]
  rfl

/-- A placeholder of one of the names is one piece. -/
theorem pieces_placeholder (hnames : ∀ n ∈ names, IsName n) (hm : m ∈ names) (t : Text) :
    pieces names (placeholder m ++ t) = .hole m :: pieces names t := by
  have hfind : names.find? (fun n => (placeholder n).isPrefixOf (placeholder m ++ t)) = some m := by
    have hfront : (placeholder m).isPrefixOf (placeholder m ++ t) = true :=
      List.isPrefixOf_iff_prefix.mpr (List.prefix_append _ t)
    cases hfound : names.find? (fun n => (placeholder n).isPrefixOf (placeholder m ++ t)) with
    | none => exact absurd hfront (List.find?_eq_none.mp hfound m hm)
    | some n =>
      -- the name that is found first is the one that stands there
      have hn := List.find?_some hfound
      have hname := hnames n (List.mem_of_find?_eq_some hfound)
      rw [(placeholder_prefix_iff hname (hnames m hm)).mp (List.isPrefixOf_iff_prefix.mp hn)]
  have hcons : placeholder m ++ t = openingBrace :: (m ++ [closingBrace] ++ t) := rfl
  rw [hcons] at hfind ⊢
  rw [pieces, pieces.go, hfind]
  dsimp only
  rw [pieces_go, placeholder_eq, List.length_cons, Nat.add_sub_cancel, List.drop_left]

/-- A placeholder stands at the front of a part, or the part goes on behind its first code point. -/
theorem part_induction (names : List Text) {motive : Text → Prop} (nil : motive [])
    (hole : ∀ n ∈ names, ∀ t, motive t → motive (placeholder n ++ t))
    (char : ∀ c t, (∀ n ∈ names, ¬placeholder n <+: c :: t) → motive t → motive (c :: t))
    (part : Text) : motive part := by
  apply Text.reading_induction (names.map placeholder)
  · exact List.forall_mem_map.mpr fun n _ => placeholder_ne_nil n
  · exact nil
  · exact List.forall_mem_map.mpr hole
  · exact fun c t h => char c t fun n hn => h _ (List.mem_map_of_mem hn)

/-- Nothing of a part is lost in its pieces. -/
theorem flatMap_shown_pieces (hnames : ∀ n ∈ names, IsName n) (part : Text) :
    (pieces names part).flatMap (Piece.shown []) = part := by
  induction part using part_induction names with
  | nil => rfl
  | hole n hn t ih =>
    rw [pieces_placeholder hnames hn, List.flatMap_cons, ih]
    rfl
  | char c t h ih =>
    rw [pieces_char h, List.flatMap_cons, ih]
    rfl

/-- Every placeholder in a part is a hole of it. -/
theorem count_pieces (hnames : ∀ n ∈ names, IsName n) (hn : n ∈ names) (part : Text) :
    (pieces names part).count (.hole n) = occurrences (placeholder n) part := by
  induction part using part_induction names with
  | nil => exact (Text.occurrences_nil (placeholder_ne_nil n)).symm
  | hole m hm t ih =>
    rw [pieces_placeholder hnames hm, count_hole_cons, ih,
      occurrences_placeholder_append (hnames n hn) (hnames m hm)]
  | char c t h ih =>
    rw [pieces_char h, List.count_cons_of_ne (by simp), ih, Text.occurrences_cons, if_neg (h n hn)]
    rfl

/-- The placeholders that are read are those of the names. -/
theorem mem_of_hole_mem_pieces (hnames : ∀ n ∈ names, IsName n) {part : Text}
    (h : .hole n ∈ pieces names part) : n ∈ names := by
  -- on the part, placeholder by placeholder and character by character
  induction part using part_induction names with
  | nil => cases h
  | hole m hm t ih =>
    rw [pieces_placeholder hnames hm, List.mem_cons, Piece.hole.injEq] at h
    rcases h with rfl | h
    · exact hm
    · exact ih h
  | char c t hc ih =>
    rw [pieces_char hc, List.mem_cons] at h
    exact ih (h.resolve_left (by simp))

/-- The order of the names does not matter. -/
theorem pieces_congr {names' : List Text} (hnames : ∀ n ∈ names, IsName n)
    (h : ∀ n, n ∈ names' ↔ n ∈ names) (part : Text) : pieces names' part = pieces names part := by
  have hnames' : ∀ n ∈ names', IsName n := fun n hn => hnames n ((h n).mp hn)
  induction part using part_induction names with
  | nil => rfl
  | hole m hm t ih =>
    rw [pieces_placeholder hnames hm, pieces_placeholder hnames' ((h m).mpr hm), ih]
  | char c t hc ih => rw [pieces_char hc, pieces_char fun n hn => hc n ((h n).mp hn), ih]

/-! ## One Name -/

variable {values values' before : List (Text × Text)}

/-- The values in front go first. -/
theorem lookup_concat (m n v : Text) (before : List (Text × Text)) :
    Json.lookup m (before ++ [(n, v)]) =
      (Json.lookup m before).or (if n = m then some v else none) := by
  induction before with
  | nil => rfl
  | cons w before ih =>
    rw [List.cons_append, Json.lookup_cons, Json.lookup_cons, ih]
    split <;> rfl

/-- A new name gets its value in its own placeholder only. -/
theorem shown_concat (hnew : n ∉ Json.names before) (m v : Text) :
    Piece.shown (before ++ [(n, v)]) (.hole m) = if m = n then v else Piece.shown before (.hole m) := by
  rw [Piece.shown, lookup_concat]
  by_cases h : m = n
  · rw [if_pos h, if_pos h.symm, h, Json.lookup_eq_none_iff.mpr hnew]
    rfl
  · rw [if_neg h, if_neg (Ne.symm h), Option.or_none]
    rfl

/-- A piece in which the holes of one name are gaps, while other names have values. -/
def Piece.gapped (n : Text) (before : List (Text × Text)) : Piece → List (Option Codepoint)
  | .char c => [some c]
  | .hole m => if m = n then [none] else (Piece.shown before (.hole m)).map some

/-- When the gaps get the value of the new name, all names have theirs. -/
theorem plug_gapped (hnew : n ∉ Json.names before) (ps : List Piece) (w : Text) :
    plug (ps.flatMap (Piece.gapped n before)) w = ps.flatMap (Piece.shown (before ++ [(n, w)])) := by
  induction ps with
  | nil => rfl
  | cons p ps ih =>
    rw [List.flatMap_cons, List.flatMap_cons, Text.plug_append, ih]
    -- only the placeholder of the new name is a gap
    congr 1
    cases p with
    | char c => rfl
    | hole m =>
      rw [shown_concat hnew, Piece.gapped]
      split
      · exact List.append_nil w
      · exact Text.plug_map_some _ w

/-- Where the name has no value yet, its gaps show the placeholder. -/
theorem plug_gapped_placeholder (hnew : n ∉ Json.names before) (ps : List Piece) :
    plug (ps.flatMap (Piece.gapped n before)) (placeholder n) = ps.flatMap (Piece.shown before) := by
  rw [plug_gapped hnew]
  refine congrArg (List.flatMap · ps) (funext fun p => ?_)
  -- a hole of that name becomes the placeholder, which is what it shows as long as it has no value
  cases p with
  | char c => rfl
  | hole m =>
    rw [shown_concat hnew]
    split
    · next h =>
      rw [h, Piece.shown, Json.lookup_eq_none_iff.mpr hnew]
      rfl
    · rfl

/-- There are as many gaps as placeholders of the new name. -/
theorem count_gapped (before : List (Text × Text)) (ps : List Piece) :
    (ps.flatMap (Piece.gapped n before)).count none = ps.count (.hole n) := by
  induction ps with
  | nil => rfl
  | cons p ps ih =>
    rw [List.flatMap_cons, List.count_append, ih, List.count_cons, Nat.add_comm]
    congr 1
    cases p with
    | char c => simp [Piece.gapped]
    | hole m =>
      rw [Piece.gapped]
      split
      · next h => simp [h]
      · next h =>
        -- the value of another name is no gap, whatever its text is
        have hgapless (t : Text) : (t.map some).count none = 0 := List.count_eq_zero.mpr (by simp)
        rw [hgapless, if_neg (by simpa using h)]

/-- **Replacing one name** fills its holes and changes nothing else, exactly when its placeholder occurs
nowhere else or is its own value. -/
theorem replaceAll_shown_iff (hn : IsName n) (hnew : n ∉ Json.names before) (ps : List Piece)
    (v : Text) :
    Text.replaceAll (ps.flatMap (Piece.shown before)) (placeholder n) v =
        ps.flatMap (Piece.shown (before ++ [(n, v)])) ↔
      occurrences (placeholder n) (ps.flatMap (Piece.shown before)) = ps.count (.hole n) ∨
        v = placeholder n := by
  rw [← plug_gapped hnew, ← plug_gapped_placeholder hnew, ← count_gapped before,
    placeholder_eq]
  exact Text.replaceAll_plug_iff hn.openingBrace_notMem _ v

/-! ## All Names -/

/-- In no step of filling the part has a placeholder arisen that does not stand in the part; but one that
is its own value does not matter. -/
def Undisturbed (values : List (Text × Text)) (part : Text) : Prop :=
  ∀ before n v after, values = before ++ (n, v) :: after →
    occurrences (placeholder n) (fill before part) = occurrences (placeholder n) part ∨
      v = placeholder n

/-- The value that comes last is filled in last. -/
theorem fill_concat (before : List (Text × Text)) (n v part : Text) :
    fill (before ++ [(n, v)]) part = (fill before part).replaceAll (placeholder n) v :=
  List.foldl_concat ..

/-- Without values nothing is replaced. -/
theorem undisturbed_nil (part : Text) : Undisturbed [] part := by
  intro before n v after h
  simp at h

/-- What no value disturbs, the first of them do not disturb. -/
theorem Undisturbed.initial {part : Text} (h : Undisturbed values part) (hinitial : before <+: values) :
    Undisturbed before part := by
  obtain ⟨rest, rfl⟩ := hinitial
  intro before' n v after heq
  exact h before' n v (after ++ rest) (by rw [heq, List.append_assoc, List.cons_append])

theorem Undisturbed.dropLast {part : Text} (h : Undisturbed values part) :
    Undisturbed values.dropLast part :=
  h.initial (List.dropLast_prefix values)

/-- The last value has to leave a placeholder of its name only where the template has one, unless it is this
placeholder itself. -/
theorem undisturbed_concat {part : Text} :
    Undisturbed (before ++ [(n, v)]) part ↔ Undisturbed before part ∧
      (occurrences (placeholder n) (fill before part) = occurrences (placeholder n) part ∨
        v = placeholder n) := by
  constructor
  · intro h
    exact ⟨h.initial (List.prefix_append before [(n, v)]), h before n v [] rfl⟩
  · rintro ⟨hbefore, hlast⟩ before' m u after heq
    rcases List.append_singleton_eq_iff.mp heq with ⟨rfl, hsame, rfl⟩ | ⟨after, rfl, rfl⟩
    · cases hsame
      exact hlast
    · exact hbefore before' m u after rfl

/-- The first value that is filled in disturbs nothing. -/
theorem undisturbed_singleton (n v part : Text) : Undisturbed [(n, v)] part := by
  have h : Undisturbed ([] ++ [(n, v)]) part :=
    undisturbed_concat.mpr ⟨undisturbed_nil part, .inl rfl⟩
  exact h

/-- The names are distinct and have no braces. -/
structure Named (values : List (Text × Text)) : Prop where
  distinct : (Json.names values).Nodup
  isName : ∀ n ∈ Json.names values, IsName n

/-- **All names**: up to the last one the law is that for one name, in a text that is right so far. -/
theorem fill_eq_iff_undisturbed (hnames : ∀ n ∈ names, IsName n)
    (hvalues : ∀ n ∈ Json.names values, n ∈ names) (hdistinct : (Json.names values).Nodup) {part : Text}
    (h : Undisturbed values.dropLast part) :
    fill values part = (pieces names part).flatMap (Piece.shown values) ↔ Undisturbed values part := by
  induction values using List.reverseRecOn with
  | nil => exact iff_of_true (flatMap_shown_pieces hnames part).symm (undisturbed_nil part)
  | append_singleton before w ih =>
    obtain ⟨n, v⟩ := w
    rw [List.dropLast_concat] at h
    have hsplit : Json.names (before ++ [(n, v)]) = Json.names before ++ [n] := List.map_append
    rw [hsplit] at hvalues hdistinct
    rw [List.forall_mem_append, List.forall_mem_singleton] at hvalues
    obtain ⟨hbefore, -, hnew⟩ := List.nodup_append.mp hdistinct
    have hn : n ∉ Json.names before := fun hn => hnew n hn n (List.mem_singleton_self n) rfl
    -- so far the text is that of the pieces, and one name is left
    have hfill := (ih hvalues.1 hbefore h.dropLast).mpr h
    rw [undisturbed_concat, fill_concat, hfill, and_iff_right h,
      replaceAll_shown_iff (hnames n hvalues.2) hn, count_pieces hnames hvalues.2]

/-- If the values in front do not disturb it, a part is filled verbatim exactly when the last value does not
either. -/
theorem fill_eq_verbatim_iff (hvalues : Named values) {part : Text}
    (h : Undisturbed values.dropLast part) :
    fill values part = verbatim values part ↔ Undisturbed values part :=
  fill_eq_iff_undisturbed hvalues.isName (fun _ hn => hn) hvalues.distinct h

/-- The first of some named values are named values. -/
theorem Named.initial (hvalues : Named values) (hinitial : before <+: values) : Named before where
  distinct := hvalues.distinct.sublist (hinitial.map _).sublist
  isName n hn := hvalues.isName n ((hinitial.map _).subset hn)

/-- The part is right after every step exactly when it is not disturbed. -/
theorem forall_fill_eq_verbatim_iff (hvalues : Named values) (part : Text) :
    (∀ before, before <+: values → fill before part = verbatim before part) ↔
      Undisturbed values part := by
  constructor
  · intro h
    -- the values are filled in from the first one on, so that the induction has to take off the last one
    induction values using List.reverseRecOn with
    | nil => exact undisturbed_nil part
    | append_singleton before w ih =>
      have hinitial : before <+: before ++ [w] := List.prefix_append before [w]
      have hbefore := ih (hvalues.initial hinitial) fun before' h' => h before' (h'.trans hinitial)
      refine (fill_eq_verbatim_iff hvalues ?_).mp (h _ List.prefix_rfl)
      rwa [List.dropLast_concat]
  · intro h before hinitial
    have hbefore := h.initial hinitial
    exact (fill_eq_verbatim_iff (hvalues.initial hinitial) hbefore.dropLast).mpr hbefore

/-- Verbatim, the order in which the values are given does not matter. -/
theorem verbatim_perm (hvalues : Named values) (h : values'.Perm values) (part : Text) :
    verbatim values' part = verbatim values part := by
  have hnames (n : Text) : n ∈ Json.names values' ↔ n ∈ Json.names values := (h.map _).mem_iff
  have hlookup (n : Text) : Json.lookup n values' = Json.lookup n values :=
    (Json.lookup_perm hvalues.distinct h.symm n).symm
  rw [verbatim, verbatim, pieces_congr hvalues.isName hnames]
  refine congrArg (List.flatMap · _) (funext fun p => ?_)
  cases p with
  | char c => rfl
  | hole n => rw [Piece.shown, Piece.shown, hlookup]

/-- So are the same values in another order. -/
theorem Named.perm (hvalues : Named values) (h : values'.Perm values) : Named values' where
  distinct := (h.map _).nodup_iff.mpr hvalues.distinct
  isName n hn := hvalues.isName n ((h.map _).mem_iff.mp hn)

/-- Where only the placeholders have opening braces, each of them stands in the template. -/
theorem occurrences_shown (hn : IsName n) (hnew : n ∉ Json.names before)
    (hbefore : ∀ w ∈ before, openingBrace ∉ w.2) {ps : List Piece}
    (hholes : ∀ m, .hole m ∈ ps → IsName m) (hchars : .char openingBrace ∉ ps) :
    occurrences (placeholder n) (ps.flatMap (Piece.shown before)) = ps.count (.hole n) := by
  induction ps with
  | nil => exact Text.occurrences_nil (placeholder_ne_nil n)
  | cons p ps ih =>
    rw [List.mem_cons, not_or] at hchars
    have hrest := ih (fun m hm => hholes m (List.mem_cons_of_mem p hm)) hchars.2
    rw [List.flatMap_cons]
    cases p with
    | char c =>
      have hc : openingBrace ∉ Piece.shown before (.char c) := by
        rw [Piece.shown, List.mem_singleton]
        exact fun h => hchars.1 (congrArg Piece.char h)
      rw [placeholder_eq, Text.occurrences_append_of_notMem hc, ← placeholder_eq, hrest,
        List.count_cons_of_ne (by simp)]
    | hole m =>
      rw [Piece.shown, count_hole_cons]
      cases hlookup : Json.lookup m before with
      | none =>
        rw [Option.getD_none, occurrences_placeholder_append hn (hholes m List.mem_cons_self), hrest]
      | some u =>
        have hmem := Json.mem_of_lookup hlookup
        -- a name that has a value already is not the new one
        have hne : n ≠ m := by
          rintro rfl
          exact hnew (List.mem_map_of_mem hmem)
        rw [Option.getD_some, placeholder_eq, Text.occurrences_append_of_notMem (hbefore _ hmem),
          ← placeholder_eq, hrest, if_neg hne]
        rfl

/-- Values without opening braces disturb no part whose only opening braces are those of placeholders. -/
theorem undisturbed_of_openingBrace_notMem (hnames : ∀ n ∈ names, IsName n)
    (hvalues : ∀ n ∈ Json.names values, n ∈ names) (hdistinct : (Json.names values).Nodup)
    (hbraces : ∀ w ∈ values, openingBrace ∉ w.2) {part : Text}
    (hpart : .char openingBrace ∉ pieces names part) : Undisturbed values part := by
  induction values using List.reverseRecOn with
  | nil => exact undisturbed_nil part
  | append_singleton before w ih =>
    obtain ⟨n, v⟩ := w
    have hsplit : Json.names (before ++ [(n, v)]) = Json.names before ++ [n] := List.map_append
    rw [hsplit] at hvalues hdistinct
    rw [List.forall_mem_append, List.forall_mem_singleton] at hvalues
    rw [List.forall_mem_append] at hbraces
    obtain ⟨hbefore, -, hnew⟩ := List.nodup_append.mp hdistinct
    have hn : n ∉ Json.names before := fun hn => hnew n hn n (List.mem_singleton_self n) rfl
    have hundisturbed := ih hvalues.1 hbefore hbraces.1
    -- what has been filled in so far is verbatim, and there the placeholders can be counted
    have hfill := (fill_eq_iff_undisturbed hnames hvalues.1 hbefore hundisturbed.dropLast).mpr hundisturbed
    refine undisturbed_concat.mpr ⟨hundisturbed, .inl ?_⟩
    have hshown := occurrences_shown (hnames n hvalues.2) hn hbraces.1
      (fun m hm => hnames m (mem_of_hole_mem_pieces hnames hm)) hpart
    rw [hfill, hshown, count_pieces hnames hvalues.2]

/-- All that holds for filling templates with these values. -/
structure Filled (values : List (Text × Text)) : Prop where
  /-- The pieces of a part are the part, with a hole for each placeholder in it. -/
  read : ∀ part, (pieces (Json.names values) part).flatMap (Piece.shown []) = part ∧
    ∀ n ∈ Json.names values,
      (pieces (Json.names values) part).count (.hole n) = occurrences (placeholder n) part
  /-- Undisturbed parts are filled verbatim, each in its place. -/
  verbatim : ∀ parts, (∀ part ∈ parts, Undisturbed values part) →
    render values parts = parts.map (verbatim values)
  /-- A part is verbatim after every step exactly when it is undisturbed. -/
  steps : ∀ part, (∀ before, before <+: values → fill before part = Template.verbatim before part) ↔
    Undisturbed values part
  /-- In the end no other parts are verbatim, unless a step before the last one has disturbed them. -/
  exact : ∀ parts, (∀ part ∈ parts, Undisturbed values.dropLast part) →
    (render values parts = parts.map (Template.verbatim values) ↔
      ∀ part ∈ parts, Undisturbed values part)
  /-- The order of the values does not matter. -/
  order : ∀ values', values'.Perm values → ∀ parts,
    (∀ part ∈ parts, Undisturbed values part ∧ Undisturbed values' part) →
    render values' parts = render values parts
  /-- Without opening braces in the values, and outside placeholders, nothing is disturbed. -/
  braceless : (∀ w ∈ values, openingBrace ∉ w.2) → ∀ part,
    .char openingBrace ∉ pieces (Json.names values) part → Undisturbed values part

/-- For named values, templates are filled as specified. -/
theorem Named.filled (h : Named values) : Filled values where
  read part := ⟨flatMap_shown_pieces h.isName part, fun _ hn => count_pieces h.isName hn part⟩
  verbatim parts hparts :=
    List.map_congr_left fun part hpart =>
      (fill_eq_verbatim_iff h (hparts part hpart).dropLast).mpr (hparts part hpart)
  steps part := forall_fill_eq_verbatim_iff h part
  exact parts hparts := by
    rw [render, List.map_inj_left]
    exact forall₂_congr fun part hpart => fill_eq_verbatim_iff h (hparts part hpart)
  order values' hperm parts hparts := by
    refine List.map_congr_left fun part hpart => ?_
    obtain ⟨hpart, hpart'⟩ := hparts part hpart
    rw [(fill_eq_verbatim_iff (h.perm hperm) hpart'.dropLast).mpr hpart',
      (fill_eq_verbatim_iff h hpart.dropLast).mpr hpart, verbatim_perm h hperm]
  braceless hbraces _ hpart :=
    undisturbed_of_openingBrace_notMem h.isName (fun _ hn => hn) h.distinct hbraces hpart

/-- One value is always inserted verbatim. -/
theorem render_singleton (hn : IsName n) (v : Text) (parts : List Text) :
    render [(n, v)] parts = parts.map (verbatim [(n, v)]) := by
  have hnamed : Named [(n, v)] := ⟨by simp [Json.names], by simp [Json.names, hn]⟩
  exact hnamed.filled.verbatim parts fun part _ => undisturbed_singleton n v part

/-! ## Two Names -/

/-- What becomes of a template with two placeholders. -/
structure FilledTwo (n x m y : Text) (parts filled : List Text) : Prop where
  length : filled.length = parts.length
  /-- A part is filled verbatim unless the first value makes a placeholder of the second name. -/
  every : ∀ (i : ℕ) (part : Text), parts[i]? = some part →
    (filled[i]? = some (verbatim [(n, x), (m, y)] part) ↔
      occurrences (placeholder m) (part.replaceAll (placeholder n) x) =
        occurrences (placeholder m) part ∨ y = placeholder m)
  /-- Where only the first value is asked for, it is there unless the other placeholder is in it. -/
  first : ∀ i : ℕ, parts[i]? = some (placeholder n) →
    (filled[i]? = some x ↔ ¬placeholder m <:+: x ∨ y = placeholder m)
  /-- Where only the second value is asked for, it is there. -/
  last : ∀ i : ℕ, parts[i]? = some (placeholder m) → filled[i]? = some y

/-- A placeholder is replaced by the value as it is. -/
theorem replaceAll_placeholder (n v : Text) : (placeholder n).replaceAll (placeholder n) v = v := by
  have h := Text.replaceAll_append (placeholder_ne_nil n) [] v
  rwa [List.append_nil, Text.replaceAll_nil, List.append_nil] at h

/-- Replacing changes nothing where there is no placeholder, and where the value is the placeholder. -/
theorem replaceAll_eq_self_iff (hn : IsName n) :
    t.replaceAll (placeholder n) v = t ↔ ¬placeholder n <:+: t ∨ v = placeholder n := by
  have h := Text.replaceAll_plug_iff hn.openingBrace_notMem (t.map some) v
  have hgapless : (t.map some).count none = 0 := List.count_eq_zero.mpr (by simp)
  rwa [Text.plug_map_some, Text.plug_map_some, hgapless, Text.occurrences_eq_zero_iff] at h

/-- A template of two names is filled as specified for two. -/
theorem filledTwo_render (hn : IsName n) (hm : IsName m) (hne : n ≠ m) (x y : Text)
    (parts : List Text) : FilledTwo n x m y parts (render [(n, x), (m, y)] parts) where
  length := List.length_map ..
  every i part hpart := by
    have hnamed : Named [(n, x), (m, y)] :=
      ⟨by simpa [Json.names] using hne, by simp [Json.names, hn, hm]⟩
    have hfirst : Undisturbed [(n, x)] part := undisturbed_singleton n x part
    have hboth : Undisturbed ([(n, x)] ++ [(m, y)]) part ↔ _ := undisturbed_concat
    rw [and_iff_right hfirst] at hboth
    rw [render, List.getElem?_map, hpart, Option.map_some, Option.some.injEq]
    exact (fill_eq_verbatim_iff hnamed hfirst).trans hboth
  first i hi := by
    have hfill : fill [(n, x), (m, y)] (placeholder n) = x.replaceAll (placeholder m) y :=
      congrArg (Text.replaceAll · (placeholder m) y) (replaceAll_placeholder n x)
    rw [render, List.getElem?_map, hi, Option.map_some, Option.some.injEq, hfill,
      replaceAll_eq_self_iff hm]
  last i hi := by
    -- filling the first name leaves the other placeholder as it is
    have hother : ¬placeholder n <:+: placeholder m := by
      have h := occurrences_placeholder_append hn hm []
      rw [if_neg hne, List.append_nil, Text.occurrences_nil (placeholder_ne_nil n)] at h
      exact Text.occurrences_eq_zero_iff.mp h
    have hkept : (placeholder m).replaceAll (placeholder n) x = placeholder m :=
      (replaceAll_eq_self_iff hn).mpr (.inl hother)
    have hfill : fill [(n, x), (m, y)] (placeholder m) = y := by
      show Text.replaceAll ((placeholder m).replaceAll (placeholder n) x) (placeholder m) y = y
      rw [hkept, replaceAll_placeholder]
    rw [render, List.getElem?_map, hi, Option.map_some, hfill]

/-! ## Main Result -/

/-- **Templates are filled verbatim as long as no placeholder arises**, for any distinct names without braces,
any values and any template.  The generating command is given the path of the schema file that was written,
as `schema`, unless this path holds the placeholder of the directory; the extractor is given the directory
for schemas, as `out_dir`, unless that holds the placeholder of the program's directory.  The formatter has
only one placeholder, so that its command is always filled verbatim. -/
theorem filled_verbatim (hvalues : Named values) :
    Filled values ∧
      (∀ (argv : List Text) (g : Generator), Generator.command argv = .ok g →
        ∀ (host : Host) (s : Schema) (directory : Path) (w : World), ∃ k,
          let file := Generator.schemaPath (host.temporaryLocation k) s
          let after := (perform (g.generate host s directory) w).2
          after.steps = w.steps ∨ ∃ (t : FileTree) (content : Bytes) (filled : List Text),
            s.bytes = .ok content ∧ t.entry? (w.files.location file) = some (.file content) ∧
            after.steps = w.steps ++ [host.starting filled t] ∧
            FilledTwo "schema" file.text "out_dir" directory.text argv filled) ∧
      (∀ c : Config, ∃ filled, Extraction.command c = c.extractor :: filled ∧
        FilledTwo "out_dir" c.idlDir "crate_root" c.crateRoot c.extractorArgs filled) ∧
      ∀ c : Config, Generation.formatCommand c =
        c.formatter?.map (List.map (verbatim [("out_dir", c.outDir.text)])) := by
  have hschema : IsName "schema" := ⟨by decide, by decide⟩
  have hout : IsName "out_dir" := ⟨by decide, by decide⟩
  have hroot : IsName "crate_root" := ⟨by decide, by decide⟩
  refine ⟨hvalues.filled, ?_, fun c => ⟨_, rfl, ?_⟩, fun c => ?_⟩
  -- what the command generator starts, if it gets that far
  · intro argv g hg host s directory w
    obtain ⟨k, -, -, hwrote⟩ := Generator.wrote_of_command hg host s directory w
    refine ⟨k, ?_⟩
    cases hwrote with
    | failed steps => exact .inl steps
    | asked canonical prepared steps =>
      exact .inr ⟨_, _, _, canonical, prepared.written, steps,
        filledTwo_render hschema hout (by decide) _ _ argv⟩
  · exact filledTwo_render hout hroot (by decide) _ _ c.extractorArgs
  · exact congrArg (c.formatter?.map ·) (funext (render_singleton hout c.outDir.text))

end Template

/-! ## Values That Make Placeholders -/

namespace Meeting

open Template

/-- A value that is the placeholder of the next name. -/
def values : List (Text × Text) := [("a", "\x7bb\x7d"), ("b", "x")]

/-- A schema whose program has the name of a placeholder. -/
def schema : Schema where
  instructions := []
  name := some (some "\x7bout_dir\x7d")
  types := []

/-- A system on which every tool succeeds and writes nothing. -/
def host : Host where
  launch _ files := .ok { files }
  temporary := ["tmp"]

def world : World where
  files := { home := [], entries := [(["tmp"], .directory)] }

def directory : Path :=
  ⟨.relative, ["out"]⟩

theorem named_values : Named values where
  distinct := by decide
  isName n hn := by
    have hnames : n = "a" ∨ n = "b" := by simpa [values, Json.names] using hn
    rcases hnames with rfl | rfl
    · exact ⟨by decide, by decide⟩
    · exact ⟨by decide, by decide⟩

def fileName : Text := "\x7bout_dir\x7d.json"

/-- The path of the schema file holds the name of the schema. -/
theorem text_schemaPath (k : ℕ) : (Generator.schemaPath (host.temporaryLocation k) schema).text =
    Text.ofString "/tmp/" ++ (Action.temporaryName k ++ [Path.slash] ++ fileName) := by
  have hname : Path.ofText (Generator.schemaFileName schema) = ⟨.relative, [fileName]⟩ := by decide
  rw [Generator.schemaPath, hname]
  rfl

/-- So it holds the placeholder that the schema is named after. -/
theorem holds_placeholder (k : ℕ) :
    placeholder "out_dir" <:+: (Generator.schemaPath (host.temporaryLocation k) schema).text := by
  have hfile : placeholder "out_dir" <:+: fileName := by decide
  rw [text_schemaPath]
  exact (hfile.trans (List.suffix_append _ _).isInfix).trans (List.suffix_append _ _).isInfix

/-- The text of a value is replaced again, and the command is not given the path of the schema file. -/
theorem value_filled_again :
    (Named values ∧ render values ["\x7ba\x7d"] = ["x"] ∧
      ["\x7ba\x7d"].map (verbatim values) = ["\x7bb\x7d"] ∧ ¬Undisturbed values "\x7ba\x7d") ∧
    ∃ g k t filled, Generator.command ["g", "\x7bschema\x7d"] = .ok g ∧
      (perform (g.generate host schema directory) world).2.steps = [host.starting filled t] ∧
      filled[1]? ≠ some (Generator.schemaPath (host.temporaryLocation k) schema).text := by
  obtain ⟨hfilled, hgenerator, -⟩ := filled_verbatim named_values
  constructor
  · have hwrong : render values ["\x7ba\x7d"] ≠ ["\x7ba\x7d"].map (verbatim values) := by decide
    refine ⟨named_values, by decide, by decide, fun hpart => hwrong ?_⟩
    exact hfilled.verbatim _ (by simpa using hpart)
  · obtain ⟨g, hg⟩ : ∃ g, Generator.command ["g", "\x7bschema\x7d"] = .ok g := ⟨_, rfl⟩
    obtain ⟨k, hsteps | ⟨t, content, filled, -, -, hsteps, htwo⟩⟩ :=
      hgenerator _ g hg host schema directory world
    -- the generator does come to the start of its command
    · cases hg
      have hlength := congrArg List.length hsteps
      cbv at hlength
    · refine ⟨g, k, t, filled, hg, hsteps, fun hpath => ?_⟩
      rcases (htwo.first 1 rfl).mp hpath with hfree | hdirectory
      · exact hfree (holds_placeholder k)
      · exact absurd hdirectory (by decide)

end Meeting

end SchemaGraft
