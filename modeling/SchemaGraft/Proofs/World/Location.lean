import SchemaGraft.Proofs.World.Elsewhere

/-!
# Where Paths Lead

A path leads to the location that its names spell, if it leads anywhere.  Hence the names of a path say
which locations an operation on it may change.

## Architecture

- **Locations**: `Location.follow` and `FileTree.location`; `FileTree.location_of_find`.
- **Files**: `FileTree.put_of_write` and `FileTree.find_of_rewritten`, and `Action.perform_writeText_cases`
  for texts.
- **Directories**: `FileTree.Made`, with `FileTree.made_makeDirectories`.
- **Removal**: `FileTree.entry?_remove`.
-/

namespace SchemaGraft

/-! ## Locations -/

/-- Where names lead from a location: two dots lead up, every other name down. -/
def Location.follow (here : Location) (names : List Text) : Location :=
  names.foldl (fun l name => if name = Text.ofString ".." then l.dropLast else l ++ [name]) here

@[simp] theorem Location.follow_nil (here : Location) : Location.follow here [] = here := rfl

theorem Location.follow_cons (here : Location) (name : Text) (rest : List Text) :
    Location.follow here (name :: rest) =
      Location.follow (if name = ".." then here.dropLast else here ++ [name]) rest := rfl

theorem Location.follow_append (here : Location) (front back : List Text) :
    Location.follow here (front ++ back) = Location.follow (Location.follow here front) back :=
  List.foldl_append

/-- Names that do not lead up lead to what they spell. -/
theorem Location.follow_of_down {here : Location} {names : List Text}
    (h : Text.ofString ".." ∉ names) : Location.follow here names = here ++ names := by
  induction names generalizing here with
  | nil => exact (List.append_nil here).symm
  | cons name rest ih =>
    rw [List.mem_cons, not_or] at h
    rw [follow_cons, if_neg (Ne.symm h.1), ih h.2, List.append_assoc, List.singleton_append]

namespace FileTree

variable {t t' : FileTree} {p : Path} {l here : Location}

/-- The location that a path spells. -/
def location (t : FileTree) (p : Path) : Location :=
  Location.follow (t.start p) p.parts

/-- The location depends on nothing but the current directory. -/
theorem location_congr (h : t'.home = t.home) (p : Path) : t'.location p = t.location p := by
  rw [location, location, start, start, h]

/-- A path below an absolute one that does not lead up. -/
theorem location_append (t : FileTree) (hhere : Text.ofString ".." ∉ here) {q : Path}
    (hq : q.root = .relative) :
    t.location (Path.mk .absolute here ++ q) = Location.follow here q.parts := by
  have happend : Path.mk .absolute here ++ q = ⟨.absolute, here ++ q.parts⟩ := by
    show Path.append _ q = _
    rw [Path.append, hq]
  rw [happend, location]
  show Location.follow [] (here ++ q.parts) = _
  rw [Location.follow_append, Location.follow_of_down hhere, List.nil_append]

/-- Names lead to the location that they spell. -/
theorem Leads.location_eq {names : List Text} {place : Place} (h : t.Leads here names place) :
    place.location = Location.follow here names := by
  induction h with
  | arrived here => rfl
  | up _ _ ih => rw [Location.follow_cons, if_pos rfl, ih]
  | down lookup _ _ ih => rw [Location.follow_cons, if_neg lookup.ne_up, ih]
  | file lookup _ =>
    rw [Location.follow_cons, if_neg lookup.ne_up]
    rfl
  | free lookup _ =>
    rw [Location.follow_cons, if_neg lookup.ne_up]
    rfl

/-- A path that leads anywhere leads to the location that it spells. -/
theorem location_of_find {place : Place} (h : t.find p = .ok place) :
    place.location = t.location p :=
  (leads_of_find h).location_eq

/-! ## Files -/

theorem ne_nil_of_writable {place : Place} (hplace : Writable l place) (h : t.find p = .ok place) :
    l ≠ [] :=
  ((leads_of_find h).put [] hplace).1

theorem location_of_writable {place : Place} (hplace : Writable l place) (h : t.find p = .ok place) :
    l = t.location p := by
  rw [← location_of_find h, hplace.location_eq]

/-- Writing a file puts it at the location that its path spells. -/
theorem put_of_write {content : Bytes} (h : t.write p content = (t', .ok ())) :
    t.location p ≠ [] ∧ t' = t.put (t.location p) (.file content) := by
  obtain ⟨l, place, hplace, hfind, -, -, rfl⟩ := write_eq_ok_iff.mp h
  rw [← location_of_writable hplace hfind]
  exact ⟨ne_nil_of_writable hplace hfind, rfl⟩

/-- A write that fails leaves everything as it was, or a part of the content at that location. -/
theorem put_of_failed_write {content : Bytes} {f : AccessFault}
    (h : t.write p content = (t', .error f)) :
    t' = t ∨ t.location p ≠ [] ∧ ∃ part, part <+: content ∧ t' = t.put (t.location p) (.file part) := by
  rcases write_eq_error_cases h with rfl | ⟨-, l, place, n, hplace, hfind, -, rfl⟩
  · exact .inl rfl
  · rw [← location_of_writable hplace hfind]
    exact .inr ⟨ne_nil_of_writable hplace hfind, _, List.take_prefix n content, rfl⟩

theorem exists?_congr (h : t'.find p = t.find p) : t'.exists? p = t.exists? p := by
  rw [exists?, exists?, holds, holds, h]

theorem read_congr (h : t'.find p = t.find p) (haccess : t'.access = t.access) :
    t'.read p = t.read p := by
  rw [read, read, h, haccess]

/-- A way that does not end at a file that was rewritten leads where it led before. -/
theorem walk_of_entries {old content : Bytes} (haccess : t'.access = t.access)
    (hold : t.entry? l = some (.file old))
    (hentry : ∀ l', t'.entry? l' = if l' = l then some (.file content) else t.entry? l')
    {here : Location} {names : List Text} (h : Location.follow here names ≠ l) :
    t'.walk here names = t.walk here names := by
  induction names generalizing here with
  | nil => rw [walk, walk]
  | cons name rest ih =>
    rw [Location.follow_cons] at h
    rw [walk, walk, haccess]
    -- who may pass is the same
    refine if_congr Iff.rfl rfl ?_
    by_cases hup : name = ".."
    · rw [if_pos hup] at h ⊢
      rw [if_pos hup, ih h]
    · rw [if_neg hup] at h ⊢
      rw [if_neg hup, hentry]
      by_cases hl : here ++ [name] = l
      · -- the file is on the way, so the way ends there or leads nowhere
        rw [if_pos hl, hl, hold]
        cases rest with
        | nil => exact absurd hl h
        | cons _ _ => rfl
      · rw [if_neg hl, ih h]

/-- **Rewriting a file changes no other way.** -/
theorem find_of_rewritten {q : Path} {content : Bytes} (h : Rewritten p content t t')
    (hother : t.location q ≠ t.location p) : t'.find q = t.find q := by
  obtain ⟨l, old, hfind, -, hentry⟩ := h.location
  have hl : l = t.location p := location_of_find hfind
  have hstart : t'.start q = t.start q := by rw [start, start, h.home]
  rw [find, find, hstart]
  rw [walk_of_entries h.access (entry?_of_find hfind) hentry (by rwa [hl])]

/-! ## Directories -/

/-- The location is as it was, or nothing was there, and now there is a directory on the way that the path
spells. -/
def KeptOrMade (p : Path) (before after : FileTree) (l : Location) : Prop :=
  after.entry? l = before.entry? l ∨
    before.entry? l = none ∧ after.entry? l = some .directory ∧
      ∃ names, names <+: p.parts ∧ before.location ⟨p.root, names⟩ = l

theorem KeptOrMade.of_entry {before : FileTree} (h : KeptOrMade p before t l)
    (heq : t'.entry? l = t.entry? l) : KeptOrMade p before t' l := by
  rw [KeptOrMade, heq]
  exact h

/-- Nothing has changed but that directories have been made on the way that the path spells. -/
structure Made (p : Path) (before after : FileTree) : Prop where
  home : after.home = before.home
  access : after.access = before.access
  entry : ∀ l, KeptOrMade p before after l

namespace Made

variable {before between after : FileTree}

theorem refl (p : Path) (t : FileTree) : Made p t t :=
  ⟨rfl, rfl, fun _ => Or.inl rfl⟩

theorem trans (h : Made p before between) (h' : Made p between after) : Made p before after where
  home := h'.home.trans h.home
  access := h'.access.trans h.access
  entry l := by
    -- a location is made once: what the first step has made, the second finds there
    rcases h'.entry l with heq | ⟨hfree, hmade, names, hnames, hl⟩
    · exact (h.entry l).of_entry heq
    · rcases h.entry l with heq | ⟨-, hthere, -⟩
      · rw [heq] at hfree
        rw [location_congr h.home] at hl
        exact Or.inr ⟨hfree, hmade, names, hnames, hl⟩
      · rw [hfree] at hthere
        cases hthere

/-- A longer path has the way of a shorter one. -/
theorem mono {root : PathRoot} {names names' : List Text} (h : Made ⟨root, names⟩ before after)
    (hnames : names <+: names') : Made ⟨root, names'⟩ before after where
  home := h.home
  access := h.access
  entry l := by
    rcases h.entry l with heq | ⟨hfree, hmade, part, hpart, hl⟩
    · exact Or.inl heq
    · exact Or.inr ⟨hfree, hmade, part, hpart.trans hnames, hl⟩

/-- A location that is free afterwards was free before. -/
theorem free (h : Made p before after) (hfree : after.entry? l = none) : before.entry? l = none := by
  rcases h.entry l with heq | ⟨hbefore, -⟩
  · rw [← heq, hfree]
  · exact hbefore

end Made

/-- One directory is made where nothing was. -/
theorem made_makeDirectory (h : t.makeDirectory p = .ok t') : Made p t t' := by
  rw [makeDirectory] at h
  split at h
  · next l hfind =>
    cases h
    -- only a free place is made a directory
    obtain ⟨hl, hfree⟩ := (leads_of_find hfind).entry?_free
    refine ⟨rfl, rfl, fun l' => ?_⟩
    rw [KeptOrMade, entry?_put t hl]
    split
    · next heq =>
      subst heq
      exact .inr ⟨hfree, rfl, p.parts, List.prefix_rfl, (location_of_find hfind).symm⟩
    · exact .inl rfl
  · cases h
  · cases h

/-- **Making directories** changes nothing else, even if it fails halfway. -/
theorem made_makeDirectories (t : FileTree) (p : Path) : Made p t (t.makeDirectories p).1 := by
  rw [makeDirectories]
  -- the names are taken from the last one on, as parents are made before what is in them
  generalize hnames : p.parts.reverse = reversed
  have hp : p = ⟨p.root, reversed.reverse⟩ := by rw [← hnames, List.reverse_reverse]
  rw [hp]
  clear hnames hp
  dsimp only
  induction reversed with
  | nil =>
    rw [makeWithParents]
    dsimp only
    split
    · next hmake => exact made_makeDirectory hmake
    · exact .refl _ t
    · exact .refl _ t
  | cons name up ih =>
    have hprefix : up.reverse <+: (name :: up).reverse := by
      rw [List.reverse_cons]
      exact List.prefix_append _ _
    rw [makeWithParents]
    dsimp only
    split
    · next hmake => exact made_makeDirectory hmake
    · split
      · next hup =>
        rw [hup] at ih
        exact ih.mono hprefix
      · next hup =>
        rw [hup] at ih
        have hparents := ih.mono hprefix
        split
        · next hmake => exact hparents.trans (made_makeDirectory hmake)
        · exact hparents
        · exact hparents
    · exact .refl _ t

/-! ## Removal -/

theorem lookup_filter_of_pos {entries : List (Location × Entry)} {keep : Location → Bool}
    (h : keep l = true) : (entries.filter fun m => keep m.1).lookup l = entries.lookup l := by
  induction entries with
  | nil => rfl
  | cons m rest ih =>
    rw [List.filter_cons]
    obtain ⟨k, e⟩ := m
    by_cases hk : l = k
    · subst hk
      rw [if_pos h]
      simp
    · have hne : (l == k) = false := by simp [hk]
      split
      · rw [List.lookup_cons, List.lookup_cons, hne, ih]
      · rw [List.lookup_cons, hne, ih]

/-- What is not below the location stays. -/
theorem entry?_remove (t : FileTree) (h : ¬here <+: l) :
    FileTree.entry? (t.remove here) l = t.entry? l := by
  have hkeep : (!here.isPrefixOf l) = true := by
    rw [Bool.not_eq_true', Bool.eq_false_iff]
    exact fun hprefix => h (List.isPrefixOf_iff_prefix.mp hprefix)
  unfold entry? remove
  dsimp only
  rw [@lookup_filter_of_pos l t.entries (fun l => !here.isPrefixOf l) hkeep]

end FileTree

/-! ## Texts -/

namespace Action

/-- Writing a text puts it at the location that the path spells.  When that fails, there may be a file with
a part of it, which is empty when the text cannot be encoded. -/
theorem perform_writeText_cases (p : Path) (t : Text) (w : World) :
    (∃ content, Utf8.encode t = .ok content ∧ w.files.location p ≠ [] ∧
        perform (writeText p t) w =
          (.ok ⟨⟩, { w with files := w.files.put (w.files.location p) (.file content) })) ∨
      ∃ f files, perform (writeText p t) w = (.error f, { w with files }) ∧
        (files = w.files ∨ w.files.location p ≠ [] ∧
          ∃ part, (part = [] ∨ ∃ content, Utf8.encode t = .ok content ∧ part <+: content) ∧
            files = w.files.put (w.files.location p) (.file part)) := by
  -- the file is emptied before a text that cannot be encoded is given up
  cases hencode : Utf8.encode t with
  | ok content =>
    rw [perform_writeText hencode, write, perform_change]
    rcases hwrite : w.files.write p content with ⟨files, f | _⟩
    · refine .inr ⟨_, files, rfl, (FileTree.put_of_failed_write hwrite).imp_right ?_⟩
      rintro ⟨hlocation, part, hpart, rfl⟩
      exact ⟨hlocation, part, .inr ⟨content, rfl, hpart⟩, rfl⟩
    · obtain ⟨hlocation, rfl⟩ := FileTree.put_of_write hwrite
      exact .inl ⟨content, rfl, hlocation, rfl⟩
  | error f =>
    rw [writeText, perform_bind, write, perform_change, hencode]
    rcases hwrite : w.files.write p [] with ⟨files, f' | _⟩
    · refine .inr ⟨_, files, rfl, (FileTree.put_of_failed_write hwrite).imp_right ?_⟩
      rintro ⟨hlocation, part, hpart, rfl⟩
      exact ⟨hlocation, part, .inl (List.prefix_nil.mp hpart), rfl⟩
    · obtain ⟨hlocation, rfl⟩ := FileTree.put_of_write hwrite
      exact .inr ⟨_, _, rfl, .inr ⟨hlocation, [], .inl rfl, rfl⟩⟩

end Action

end SchemaGraft
