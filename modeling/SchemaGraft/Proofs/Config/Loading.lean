import SchemaGraft.Proofs.Text.Decoding
import SchemaGraft.Proofs.World.FileTree
import SchemaGraft.Proofs.Yaml.Faults
import SchemaGraft.Proofs.Yaml.Proper

/-!
# How Loading Documents Fails

Loading a configuration or a patch table is meant to fail in one way only: as a fault of the document at its
path, or, for a table, for an ambiguous rule.  It does, for every path that can be followed and leads to no
directory and to no file that may not be read, and every content that is a plain YAML text, with texts as its keys
where it is a configuration.  All else it lets through.

## Architecture

- **Paths**: `FileTree.exists?_cases` says what becomes of the question whether there is something at a path.
- **Outcomes**: `DocumentKind.Settles` for what loading is meant to give, `DocumentKind.Breaks` for the faults
  that it lets through.
- **Documents**: `DocumentKind.perform_document` says how far loading comes before a mapping is checked.
- **Main result**: `documents_fail_one_way`, for both loaders.
-/

namespace SchemaGraft

/-! ## Paths -/

namespace FileTree

variable {t : FileTree} {p : Path}

/-- A walk fails for a name that is too long, at a closed directory, or for what is or is not on the way. -/
theorem walk_eq_error {e : SystemError} {here : Location} {names : List Text}
    (h : t.walk here names = .error e) :
    (e = .nameTooLong ∨ e = .denied) ∨ e = .notFound ∨ e = .notDirectory := by
  -- on the names of the path: a fault ends the walk, an entry is where it goes on
  induction names generalizing here with
  | nil => cases h
  | cons name rest ih =>
    rw [walk] at h
    split at h
    · cases h
      exact .inl (.inr rfl)
    split at h
    · exact ih h
    · split at h
      · cases h
        exact .inl (.inl rfl)
      · split at h
        · exact ih h
        · split at h <;> cases h
          exact .inr (.inr rfl)
        · split at h <;> cases h
          exact .inr (.inl rfl)

/-- What the system says of a path names the path. -/
theorem find_eq_system {e : SystemError} {name : Text} (h : t.find p = .error (.system e name)) :
    name = p.text ∧ ((e = .nameTooLong ∨ e = .denied) ∨ e = .notFound ∨ e = .notDirectory) := by
  -- a path that is refused has no bytes, or a null byte; of the others the system speaks
  rw [find] at h
  split at h
  · cases h
  · split at h
    · cases h
    · split at h
      · cases h
        exact ⟨rfl, .inl (.inl rfl)⟩
      · split at h
        · cases h
        · next hwalk =>
          cases h
          exact ⟨rfl, walk_eq_error hwalk⟩

/-- The path, or a name in it, is too long, or a directory on the way lets no one through. -/
def Unreachable (t : FileTree) (p : Path) (e : SystemError) : Prop :=
  (e = .nameTooLong ∨ e = .denied) ∧ t.find p = .error (.system e p.text)

/-- Something is at a path, or nothing is, or the path does not let one tell. -/
theorem exists?_cases (t : FileTree) (p : Path) :
    (∃ l e, t.find p = .ok (.taken l e) ∧ t.exists? p = .ok true) ∨
      ((∀ l e, t.find p ≠ .ok (.taken l e)) ∧ (∀ e, ¬t.Unreachable p e) ∧ t.exists? p = .ok false) ∨
      ∃ e, t.Unreachable p e ∧ t.exists? p = .error (.system e p.text) := by
  unfold exists? holds Unreachable
  -- only the last two of these faults mean that nothing is there
  rcases hfind : t.find p with (⟨e, name⟩ | - | f) | (⟨l, e⟩ | l)
  · obtain ⟨rfl, (rfl | rfl) | rfl | rfl⟩ := find_eq_system hfind <;> simp
  · simp
  · simp
  · simp
  · simp

end FileTree

namespace DocumentKind

variable {α : Type} {kind : DocumentKind} {p : Path} {t : FileTree} {r : Except Fault α}

/-! ## Outcomes -/

/-- A value, the refusal of the document at the path, or that of an ambiguous rule. -/
inductive Settles (kind : DocumentKind) (p : Path) : Except Fault α → Prop
  | loads (a : α) : Settles kind p (.ok a)
  | refuses (f : DocumentFault) : Settles kind p (.error (kind.fault p f))
  | ambiguous (hkind : kind = .table) (a : Ambiguity) : Settles kind p (.error (.pipeline (.ambiguousRule a)))

/-- The faults that loading a document lets through. -/
inductive Breaks (kind : DocumentKind) (p : Path) (t : FileTree) : Fault → Prop
  /-- The path is too long, or leads through a directory that lets no one through. -/
  | unreachable {e : SystemError} (h : t.Unreachable p e) : Breaks kind p t (.access (.system e p.text))
  /-- The path leads to a directory. -/
  | directory {l : Location} (h : t.find p = .ok (.taken l .directory)) :
    Breaks kind p t (.access (.system .isDirectory p.text))
  /-- The file may not be read. -/
  | unreadable {l : Location} {content : Bytes} (h : t.find p = .ok (.taken l (.file content)))
    (hdenied : (t.access l).canRead = false) : Breaks kind p t (.access (.system .denied p.text))
  /-- The bytes of the file are no UTF-8. -/
  | undecodable {content : Bytes} {f : Utf8.DecodeFault} (hread : t.read p = .ok content)
    (hdecode : Utf8.decode content = .error f) : Breaks kind p t (.undecodable f)
  /-- The text denotes no value, without being malformed. -/
  | yaml {content : Bytes} {cs : List Char} {f : Yaml.Fault} (hread : t.read p = .ok content)
    (hdecode : Utf8.decode content = .ok cs) (hload : Yaml.load (unifyNewlines cs) = .error f)
    (hother : f ≠ .malformed) : Breaks kind p t (.yaml f)
  /-- A key of the mapping is no text. -/
  | nonTextKey {content : Bytes} {cs : List Char} {ms : List (Scalar × Value)} (hkind : kind = .config)
    (hread : t.read p = .ok content) (hdecode : Utf8.decode content = .ok cs)
    (hload : Yaml.load (unifyNewlines cs) = .ok (.object ms)) (hkeys : Config.hasTextKeys ms = false) :
    Breaks kind p t .nonTextKey

/-- No two faults are let through in one place. -/
theorem Breaks.unique {f g : Fault} (hf : Breaks kind p t f) (hg : Breaks kind p t g) : f = g := by
  -- what is at the path, its content and the value of its text all contradict those of another case
  cases hf <;> cases hg <;> grind [FileTree.read_eq_ok_iff, FileTree.Unreachable]

/-- Nothing that is let through is foreseen. -/
theorem Breaks.unforeseen {f : Fault} (h : Breaks kind p t f) : f.isForeseen = false := by
  cases h <;> rfl

/-- A fault with which loading settles is. -/
theorem Settles.foreseen {f : Fault} (h : Settles kind p (.error f : Except Fault α)) :
    f.isForeseen = true := by
  cases h <;> rfl

/-- A document that nothing is wrong with but its content: its path leads to no directory, can be followed and
leads to nothing that may not be read, and the file holds a plain text, with texts as its keys where it is a
configuration. -/
structure Ordinary (kind : DocumentKind) (p : Path) (t : FileTree) : Prop where
  noDirectory : ∀ l, t.find p ≠ .ok (.taken l .directory)
  reachable : ∀ e, ¬t.Unreachable p e
  readable : ∀ l content, t.find p = .ok (.taken l (.file content)) → (t.access l).canRead = true
  isText : ∀ content, t.read p = .ok content → ∃ cs, content = Utf8.encodeChars cs
  plain : ∀ cs, t.read p = .ok (Utf8.encodeChars cs) → Yaml.Plain (unifyNewlines cs)
  textKeys : kind = .config → ∀ cs ms, t.read p = .ok (Utf8.encodeChars cs) →
    Yaml.load (unifyNewlines cs) = .ok (.object ms) → Config.hasTextKeys ms = true

/-- Nothing is let through of what is ordinary. -/
theorem Ordinary.not_breaks {f : Fault} (h : Ordinary kind p t) : ¬Breaks kind p t f := by
  -- each break needs a condition that an ordinary document excludes
  rintro (hfind | hfind | ⟨hfind, hdenied⟩ | ⟨hread, hdecode⟩ | ⟨hread, hdecode, hload, hother⟩ |
    ⟨hkind, hread, hdecode, hload, hkeys⟩)
  · exact h.reachable _ hfind
  · exact h.noDirectory _ hfind
  · rw [h.readable _ _ hfind] at hdenied
    cases hdenied
  · obtain ⟨cs, rfl⟩ := h.isText _ hread
    rw [Utf8.decode_encodeChars] at hdecode
    cases hdecode
  · obtain rfl := Utf8.decode_eq_ok_iff.1 hdecode
    exact hother (Yaml.load_of_plain (h.plain _ hread) hload)
  · obtain rfl := Utf8.decode_eq_ok_iff.1 hdecode
    rw [h.textKeys hkind _ _ hread hload] at hkeys
    cases hkeys

/-- A file with a plain text is nothing out of the ordinary. -/
theorem Ordinary.of_read {cs : List Char} (hread : t.read p = .ok (Utf8.encodeChars cs))
    (hplain : Yaml.Plain (unifyNewlines cs))
    (hkeys : kind = .config → ∀ ms, Yaml.load (unifyNewlines cs) = .ok (.object ms) →
      Config.hasTextKeys ms = true) : Ordinary kind p t := by
  obtain ⟨l, hfind, hcan⟩ := FileTree.read_eq_ok_iff.1 hread
  -- the file has no other text
  have unique {ds : List Char} (h : t.read p = .ok (Utf8.encodeChars ds)) : ds = cs :=
    Utf8.encodeChars_injective (Except.ok.inj (h.symm.trans hread))
  refine ⟨by simp [hfind], by simp [FileTree.Unreachable, hfind], fun l' content h => ?_,
    fun content h => ⟨cs, Except.ok.inj (h.symm.trans hread)⟩, fun ds h => ?_, fun hkind ds ms h => ?_⟩
  · cases hfind.symm.trans h
    exact hcan
  · rwa [unique h]
  · rw [unique h]
    exact hkeys hkind ms

/-! ## Documents -/

/-- The file at a path holds a mapping, or nothing, which counts as an empty one. -/
def Holds (kind : DocumentKind) (p : Path) (t : FileTree) (ms : List (Scalar × Value)) : Prop :=
  ∃ content cs, t.read p = .ok content ∧ Utf8.decode content = .ok cs ∧
    kind.mapping p (unifyNewlines cs) = .ok ms

/-- Where there is a mapping, only its keys can be let through. -/
theorem breaks_iff_of_holds {ms : List (Scalar × Value)} (h : Holds kind p t ms) {f : Fault} :
    Breaks kind p t f ↔ kind = .config ∧ Config.hasTextKeys ms = false ∧ f = .nonTextKey := by
  obtain ⟨content, cs, hread, hdecode, hmapping⟩ := h
  unfold mapping at hmapping
  -- the file holds a mapping, so of all the breaks only that of a key which is no text is left
  constructor
  · intro hbreaks
    cases hbreaks <;> grind [FileTree.read_eq_ok_iff, FileTree.Unreachable]
  · rintro ⟨rfl, hkeys, rfl⟩
    split at hmapping
    · cases hmapping
    · cases hmapping
    · next hload =>
      cases hmapping
      exact .nonTextKey rfl hread hdecode hload hkeys
    · split at hmapping <;> cases hmapping
      cases hkeys

/-- A text that is malformed, or denotes neither a mapping nor nothing, is refused. -/
theorem mapping_eq_error {cs : List Char} {f : Fault} (h : kind.mapping p cs = .error f) :
    (∃ g, f = kind.fault p g ∧ (∀ e, Yaml.load cs = .error e → e = .malformed) ∧
        ∀ ms, Yaml.load cs ≠ .ok (.object ms)) ∨
      ∃ e, f = .yaml e ∧ Yaml.load cs = .error e ∧ e ≠ .malformed := by
  -- by what the text loads to: malformed, another fault, a mapping, or some other value
  unfold mapping at h
  split at h
  · next hload =>
    cases h
    exact .inl ⟨.malformed, rfl, by simp [hload], by simp [hload]⟩
  · next e hother hload =>
    cases h
    exact .inr ⟨e, rfl, hload, hother⟩
  · cases h
  · next v hother hload =>
    split at h <;> cases h
    refine .inl ⟨.notMapping, rfl, by simp [hload], fun ms hms => ?_⟩
    cases hload.symm.trans hms
    exact hother ms rfl

/-- Reading a text changes nothing, and fails as the reading or the decoding does. -/
theorem perform_readText (p : Path) (w : World) :
    perform (Action.readText p) w =
      (match w.files.read p with
        | .ok content => ((Utf8.decode content).mapError .undecodable).map unifyNewlines
        | .error f => .error (.access f), w) := by
  unfold Action.readText Action.read Action.look
  simp only [perform_bind, perform_get]
  cases w.files.read p with
  | error f => rfl
  | ok content =>
    simp only [perform_pure]
    cases Utf8.decode content <;> rfl

/-- A directory cannot be read. -/
theorem perform_load_of_directory {l : Location} {w : World}
    (h : w.files.find p = .ok (.taken l .directory)) :
    perform (kind.load p) w = (.error (.access (.system .isDirectory p.text)), w) := by
  unfold DocumentKind.load
  rw [perform_bind, perform_readText, FileTree.read, h]

/-- Nor can a file that may not be read. -/
theorem perform_load_of_denied {l : Location} {content : Bytes} {w : World}
    (h : w.files.find p = .ok (.taken l (.file content))) (hdenied : (w.files.access l).canRead = false) :
    perform (kind.load p) w = (.error (.access (.system .denied p.text)), w) := by
  unfold DocumentKind.load
  rw [perform_bind, perform_readText, FileTree.read, h]
  dsimp only
  rw [hdenied]
  rfl

/-- How far loading comes with the file at a path: it lets a fault through, refuses the file, or finds a
mapping. -/
theorem perform_load_of_read (kind : DocumentKind) {content : Bytes} {w : World}
    (hread : w.files.read p = .ok content) :
    (∃ f, Breaks kind p w.files f ∧ perform (kind.load p) w = (.error f, w)) ∨
      ((∀ f, ¬Breaks kind p w.files f) ∧ ∃ f, perform (kind.load p) w = (.error (kind.fault p f), w)) ∨
      ∃ ms, Holds kind p w.files ms ∧ perform (kind.load p) w = (.ok ms, w) := by
  unfold DocumentKind.load
  rw [perform_bind, perform_readText, hread]
  dsimp only
  cases hdecode : Utf8.decode content with
  | error f => exact .inl ⟨_, .undecodable hread hdecode, rfl⟩
  | ok cs =>
    simp only [Except.mapError, Except.map]
    cases hmapping : kind.mapping p (unifyNewlines cs) with
    | ok ms => exact .inr (.inr ⟨ms, ⟨content, cs, hread, hdecode, hmapping⟩, rfl⟩)
    | error f =>
      rcases mapping_eq_error hmapping with ⟨g, rfl, hfault, hobject⟩ | ⟨e, rfl, hload, hother⟩
      · refine .inr (.inl ⟨fun f hf => ?_, g, rfl⟩)
        -- the text is decoded, and what is let through of its value are other faults, or the keys of a mapping
        cases hf <;> grind [FileTree.read_eq_ok_iff, FileTree.Unreachable]
      · exact .inl ⟨_, .yaml hread hdecode hload hother, rfl⟩

/-- How far loading comes with a path: it lets a fault through, refuses the file, finds a mapping, or finds
nothing at all. -/
theorem perform_document (kind : DocumentKind) (p : Path) (finish : List (Scalar × Value) → Action α)
    (otherwise : Action α) (w : World) :
    let r := perform (do if ← Action.look (·.exists? p) then kind.load p >>= finish else otherwise) w
    (∃ f, Breaks kind p w.files f ∧ r = (.error f, w)) ∨
      ((∀ f, ¬Breaks kind p w.files f) ∧ ∃ f, r = (.error (kind.fault p f), w)) ∨
      (∃ ms, Holds kind p w.files ms ∧ r = perform (finish ms) w) ∨
      (∀ f, ¬Breaks kind p w.files f) ∧ r = perform otherwise w := by
  unfold Action.look
  simp only [perform_bind, perform_get]
  rcases FileTree.exists?_cases w.files p with
    ⟨l, e, hfind, hexists⟩ | ⟨hnone, hreachable, hexists⟩ | ⟨e, hunreachable, hexists⟩
  · -- something is there, but only a file can be read
    simp only [hexists, perform_pure, if_true, perform_bind]
    cases e with
    | directory =>
      rw [perform_load_of_directory hfind]
      exact .inl ⟨_, .directory hfind, rfl⟩
    | file content =>
      cases hcan : (w.files.access l).canRead with
      | false =>
        rw [perform_load_of_denied hfind hcan]
        exact .inl ⟨_, .unreadable hfind hcan, rfl⟩
      | true =>
        rcases perform_load_of_read kind (FileTree.read_eq_ok_iff.2 ⟨l, hfind, hcan⟩) with
          ⟨f, hf, hperform⟩ | ⟨hnot, f, hperform⟩ | ⟨ms, hms, hperform⟩ <;> rw [hperform]
        · exact .inl ⟨f, hf, rfl⟩
        · exact .inr (.inl ⟨hnot, f, rfl⟩)
        · exact .inr (.inr (.inl ⟨ms, hms, rfl⟩))
  · simp only [hexists, perform_pure]
    refine .inr (.inr (.inr ⟨fun f hf => ?_, rfl⟩))
    -- all that is let through needs something at the path, or a path that cannot be followed
    cases hf <;> grind [FileTree.read_eq_ok_iff]
  · simp only [hexists, perform_throw]
    exact .inl ⟨_, .unreachable hunreachable, rfl⟩

/-! ## Main Result -/

/-- What loading the document at a path gives is settled, or let through, in just the cases that `Breaks`
lists. -/
structure FailsOneWay (kind : DocumentKind) (p : Path) (t : FileTree) (r : Except Fault α) : Prop where
  settles_iff : Settles kind p r ↔ ∀ f, ¬Breaks kind p t f
  breaks_iff (f : Fault) : Breaks kind p t f ↔ f.isForeseen = false ∧ r = .error f
  settles_of_ordinary : Ordinary kind p t → Settles kind p r

/-- It is enough that each outcome is settled, or a fault that is let through. -/
theorem failsOneWay_of_cases
    (h : Settles kind p r ∧ (∀ f, ¬Breaks kind p t f) ∨ ∃ f, Breaks kind p t f ∧ r = .error f) :
    FailsOneWay kind p t r := by
  -- a break is unforeseen and settled results are foreseen, so only one of the two can be
  have hsettles : Settles kind p r ↔ ∀ f, ¬Breaks kind p t f := by
    rcases h with ⟨hsettles, hnone⟩ | ⟨f, hf, rfl⟩
    · exact iff_of_true hsettles hnone
    · refine iff_of_false (fun hsettles => ?_) fun hnone => hnone f hf
      exact Bool.false_ne_true (hf.unforeseen.symm.trans hsettles.foreseen)
  refine ⟨hsettles, fun f => ?_, fun hordinary => hsettles.2 fun f => hordinary.not_breaks⟩
  rcases h with ⟨hsettled, hnone⟩ | ⟨g, hg, rfl⟩
  · refine iff_of_false (hnone f) ?_
    rintro ⟨hunforeseen, rfl⟩
    exact Bool.false_ne_true (hunforeseen.symm.trans hsettled.foreseen)
  · constructor
    · intro hf
      exact ⟨hf.unforeseen, congrArg Except.error (hg.unique hf)⟩
    · rintro ⟨-, hfault⟩
      cases hfault
      exact hg

/-- A loader fails in one way when what it does with a mapping, and what it does where there is nothing, does so:
all that may be let through are keys that are no texts. -/
theorem failsOneWay_of_finish {finish : List (Scalar × Value) → Action α} {otherwise : Action α} {w : World}
    (hfinish : ∀ ms,
      Settles kind p (perform (finish ms) w).1 ∧ ¬(kind = .config ∧ Config.hasTextKeys ms = false) ∨
        kind = .config ∧ Config.hasTextKeys ms = false ∧ (perform (finish ms) w).1 = .error .nonTextKey)
    (hotherwise : Settles kind p (perform otherwise w).1) :
    FailsOneWay kind p w.files
      (perform (do if ← Action.look (·.exists? p) then kind.load p >>= finish else otherwise) w).1 := by
  refine failsOneWay_of_cases ?_
  -- a break, a fault that is reported, a mapping to finish with, or no document at all
  rcases perform_document kind p finish otherwise w with
    ⟨f, hf, hr⟩ | ⟨hnot, f, hr⟩ | ⟨ms, hms, hr⟩ | ⟨hnot, hr⟩ <;> rw [hr]
  · exact .inr ⟨f, hf, rfl⟩
  · exact .inl ⟨.refuses f, hnot⟩
  · rcases hfinish ms with ⟨hsettles, hkeys⟩ | ⟨hkind, hkeys, hfault⟩
    · refine .inl ⟨hsettles, fun f hf => ?_⟩
      obtain ⟨hkind, hnone, -⟩ := (breaks_iff_of_holds hms).1 hf
      exact hkeys ⟨hkind, hnone⟩
    · exact .inr ⟨_, (breaks_iff_of_holds hms).2 ⟨hkind, hkeys, rfl⟩, hfault⟩
  · exact .inl ⟨hotherwise, hnot⟩

end DocumentKind

open DocumentKind

namespace Config

/-- The path at which the configuration is looked for. -/
def source (path : Option Text) (home : Location) : Path :=
  (givenPath? path).getD (Path.mk .absolute home ++ Path.ofText defaultName)

theorem keeps_loadFrom (p : Path) : Keeps id (loadFrom p) := by
  refine (keeps_load _ _).bind fun ms => ?_
  split
  · split
    · exact keeps_pure _
    · exact keeps_throw _
  · exact keeps_throw _

/-- Loading a configuration changes nothing. -/
theorem keeps_load (path : Option Text) : Keeps id (load path) := by
  unfold load
  -- both with and without a path given, a file that is there is loaded, which keeps the world
  split
  · refine (Action.keeps_look _).bind fun isThere => ?_
    split
    · exact keeps_loadFrom _
    · exact keeps_throw _
  · refine keeps_get.bind fun w => (Action.keeps_look _).bind fun isThere => ?_
    split
    · exact keeps_loadFrom _
    · exact keeps_pure _

/-- Loading a configuration goes on with a mapping in the file, and without a file ends at once. -/
theorem perform_load (path : Option Text) (w : World) :
    ∃ otherwise : Action Config, Settles .config (source path w.files.home) (perform otherwise w).1 ∧
      perform (load path) w =
        perform (do
          if ← Action.look (·.exists? (source path w.files.home)) then loadFrom (source path w.files.home)
          else otherwise) w := by
  unfold load source
  cases givenPath? path with
  | some p => exact ⟨throw (DocumentKind.config.fault p .absent), .refuses _, rfl⟩
  | none => exact ⟨pure {}, .loads _, rfl⟩

theorem load_failsOneWay (path : Option Text) (w : World) :
    FailsOneWay .config (source path w.files.home) w.files (perform (load path) w).1 := by
  obtain ⟨otherwise, hotherwise, hload⟩ := perform_load path w
  rw [hload]
  refine failsOneWay_of_finish (fun ms => ?_) hotherwise
  cases hkeys : hasTextKeys ms with
  | false => exact .inr ⟨rfl, rfl, rfl⟩
  | true =>
    refine .inl ⟨?_, by simp⟩
    simp only [if_true]
    cases ofMembers ms with
    | ok c => exact .loads c
    | error issues => exact .refuses (.invalid issues)

end Config

namespace PatchTable

theorem load_failsOneWay {path : Option Text} {p : Path} (hgiven : givenPath? path = some p) (w : World) :
    FailsOneWay .table p w.files (perform (load path) w).1 := by
  unfold load
  rw [hgiven]
  refine failsOneWay_of_finish (fun ms => .inl ⟨?_, by simp⟩) (.refuses .absent)
  rcases ofValue (.object ms) with (issues | a) | t
  · exact .refuses (.invalid issues)
  · exact .ambiguous rfl a
  · exact .loads t

end PatchTable

/-- **Loading fails in one way**: whatever the files are, neither loader changes anything, and each gives what it
is meant to give, for all paths and all contents but those that break it, with the fault that breaks it.  What is
ordinary breaks neither of them.  Without a path there is always a patch table. -/
theorem documents_fail_one_way (path : Option Text) (w : World) :
    (perform (Config.load path) w).2 = w ∧ (perform (PatchTable.load path) w).2 = w ∧
      FailsOneWay .config (Config.source path w.files.home) w.files (perform (Config.load path) w).1 ∧
      match givenPath? path with
      | some p => FailsOneWay .table p w.files (perform (PatchTable.load path) w).1
      | none => (perform (PatchTable.load path) w).1 = .ok PatchTable.phoenix := by
  refine ⟨Config.keeps_load path w, PatchTable.keeps_load path w, Config.load_failsOneWay path w, ?_⟩
  split
  · next hgiven => exact PatchTable.load_failsOneWay hgiven w
  · next hgiven =>
    unfold PatchTable.load
    rw [hgiven]
    rfl

/-! ## A Date That Is None -/

namespace Undated

/-- A patch table whose version reads as a date in the thirteenth month. -/
def document : List Char :=
  "version: 2024-13-45\n".toList

/-- A world of a file with this document, of one with a single byte that is no text, and of an empty one. -/
def world : World where
  files :=
    { home := []
      entries :=
        [(["table.yml"], .file (Utf8.encodeChars document)), (["bytes.yml"], .file [0xFF]),
          (["empty.yml"], .file [])] }

/-- The empty file is nothing out of the ordinary. -/
theorem ordinary_empty :
    Ordinary .config (Config.source (some "empty.yml") world.files.home) world.files :=
  @Ordinary.of_read _ _ _ [] rfl
    ⟨nofun, fun _ h _ => h.length_le.trans (Nat.zero_le _), by decide, nofun⟩ fun _ _ => nofun

theorem load_document : Yaml.load (unifyNewlines document) = .error (.calendar .month) := by
  -- whether the faults are equal can be decided, whether the values are need not be
  rw [← Except.map_eq_error_iff (f := fun _ => ())]
  decide +kernel

/-- What is no date is let through, and what is no text, while the empty file is read. -/
theorem documents_let_through :
    (perform (PatchTable.load (some "table.yml")) world).1 = .error (.yaml (.calendar .month)) ∧
      (perform (Config.load (some "bytes.yml")) world).1 = .error (.undecodable ⟨0, [0xFF], .invalidStart⟩) ∧
      ¬Settles .config (Config.source (some "bytes.yml") world.files.home)
        (perform (Config.load (some "bytes.yml")) world).1 ∧
      Settles .config (Config.source (some "empty.yml") world.files.home)
        (perform (Config.load (some "empty.yml")) world).1 := by
  obtain ⟨-, -, -, htable⟩ := documents_fail_one_way (some "table.yml") world
  obtain ⟨-, -, hbytes, -⟩ := documents_fail_one_way (some "bytes.yml") world
  obtain ⟨-, -, hempty, -⟩ := documents_fail_one_way (some "empty.yml") world
  -- both faults are breaks, and a break is the result of loading
  have hdate : Breaks .table (Path.ofText "table.yml") world.files (.yaml (.calendar .month)) :=
    .yaml rfl (Utf8.decode_encodeChars document) load_document nofun
  have hbyte : Breaks .config (Config.source (some "bytes.yml") world.files.home) world.files
      (.undecodable ⟨0, [0xFF], .invalidStart⟩) := .undecodable rfl rfl
  exact ⟨((htable.breaks_iff _).1 hdate).2, ((hbytes.breaks_iff _).1 hbyte).2,
    fun h => hbytes.settles_iff.1 h _ hbyte, hempty.settles_of_ordinary ordinary_empty⟩

end Undated

end SchemaGraft
