import SchemaGraft.Proofs.Outcome
import SchemaGraft.World.FileTree

/-!
# Files That Were Written

A file that was written holds what was written, and the way to it is the one it was before.

## Architecture

- **Locations**: `FileTree.entry?_put`.
- **Paths**: `FileTree.Leads` says where names lead, and `FileTree.find_eq_ok_iff` where a path does.
  `FileTree.find_put`: a path that leads to a file, or to a free name, leads to the file that is put there.
- **Operations**: what reading and writing need, by `FileTree.read_eq_ok_iff` and
  `FileTree.write_eq_ok_iff`, and what a write that fails leaves, by `FileTree.write_eq_error_cases`.
- **One file**: `FileTree.Rewritten` says that the content of one file is all that has changed.
-/

namespace SchemaGraft

/-! ## Locations -/

def Place.location : Place → Location
  | .taken l _ => l
  | .free l => l

theorem lookup_replace {l l' : Location} {e : Entry} (entries : List (Location × Entry)) :
    (entries.map fun m => if m.1 = l then (l, e) else m).lookup l' =
      if l' = l then (entries.lookup l).map fun _ => e else entries.lookup l' := by
  -- on the entries: the first one at the location is the one that is found and the one that is replaced
  induction entries with
  | nil => simp
  | cons m rest ih =>
    obtain ⟨k, d⟩ := m
    rw [List.map_cons]
    by_cases hk : k = l
    · subst hk
      by_cases hl : l' = k
      · subst hl
        simp
      · have hne : (l' == k) = false := by simp [hl]
        simp only [if_pos, List.lookup_cons, hne, ih, if_neg hl]
    · simp only [if_neg hk, List.lookup_cons]
      have hne : (l == k) = false := by simp [Ne.symm hk]
      by_cases hl : l' = k
      · subst hl
        simp [hk]
      · have hne' : (l' == k) = false := by simp [hl]
        simp only [hne, hne', ih]

namespace FileTree

@[simp] theorem access_put (t : FileTree) (l : Location) (e : Entry) :
    (t.put l e).access = t.access := rfl

/-- Putting something at a location changes what stands there, and nothing else. -/
theorem entry?_put (t : FileTree) {l : Location} (hl : l ≠ []) (e : Entry) (l' : Location) :
    FileTree.entry? (t.put l e) l' = if l' = l then some e else t.entry? l' := by
  have hlookup : (t.put l e).entries.lookup l' = if l' = l then some e else t.entries.lookup l' := by
    rw [put]
    dsimp only
    -- an entry is replaced where there is one, and added at the end otherwise
    split
    · next hthere =>
      rw [lookup_replace]
      obtain ⟨d, hd⟩ := Option.isSome_iff_exists.mp hthere
      rw [hd, Option.map_some]
    · next hfree =>
      rw [Option.not_isSome_iff_eq_none] at hfree
      rw [List.lookup_append]
      by_cases h : l' = l
      · subst h
        simp [hfree]
      · have hne : (l' == l) = false := by simp [h]
        simp [List.lookup_cons, hne, h]
  unfold entry?
  rw [hlookup]
  cases l' with
  | nil => simp [Ne.symm hl]
  | cons n rest => rfl

/-! ## Paths -/

/-- A name that is looked up in a directory: the directory can be entered, and the name is no step up and is not
too long. -/
structure LooksUp (t : FileTree) (here : Location) (name : Text) : Prop where
  enter : (t.access here).canEnter = true
  ne_up : name ≠ ".."
  short : byteCount name ≤ maxName

/-- The names lead from a directory to a place: up, down into directories, and at last to a file or a free
name, if not to a directory. -/
inductive Leads (t : FileTree) : Location → List Text → Place → Prop
  | arrived (here : Location) : Leads t here [] (.taken here .directory)
  | up {here : Location} {rest : List Text} {place : Place} (enter : (t.access here).canEnter = true)
    (further : Leads t here.dropLast rest place) : Leads t here (".." :: rest) place
  | down {here : Location} {name : Text} {rest : List Text} {place : Place} (lookup : t.LooksUp here name)
    (entry : t.entry? (here ++ [name]) = some .directory) (further : Leads t (here ++ [name]) rest place) :
    Leads t here (name :: rest) place
  | file {here : Location} {name : Text} {content : Bytes} (lookup : t.LooksUp here name)
    (entry : t.entry? (here ++ [name]) = some (.file content)) :
    Leads t here [name] (.taken (here ++ [name]) (.file content))
  | free {here : Location} {name : Text} (lookup : t.LooksUp here name)
    (entry : t.entry? (here ++ [name]) = none) : Leads t here [name] (.free (here ++ [name]))

/-- What a name that is looked up leads to is told from the entry that bears it. -/
theorem LooksUp.walk_eq {t : FileTree} {here : Location} {name : Text} (h : t.LooksUp here name)
    (rest : List Text) :
    t.walk here (name :: rest) =
      match t.entry? (here ++ [name]) with
      | some .directory => t.walk (here ++ [name]) rest
      | some (.file content) =>
        if rest.isEmpty then .ok (.taken (here ++ [name]) (.file content)) else .error .notDirectory
      | none => if rest.isEmpty then .ok (.free (here ++ [name])) else .error .notFound := by
  rw [walk]
  exact (if_neg (by simp [h.enter])).trans ((if_neg h.ne_up).trans (if_neg (Nat.not_lt.mpr h.short)))

/-- A walk that succeeds goes where the names lead. -/
theorem leads_of_walk {t : FileTree} {here : Location} {names : List Text} {place : Place}
    (h : t.walk here names = .ok place) : t.Leads here names place := by
  induction names generalizing here with
  | nil =>
    rw [walk] at h
    cases h
    exact .arrived here
  | cons name rest ih =>
    rw [walk] at h
    split at h
    · cases h
    next henter =>
    split at h
    · next hup =>
      subst hup
      exact .up (by simpa using henter) (ih h)
    next hup =>
    split at h
    · cases h
    next hshort =>
    have hlookup : t.LooksUp here name := ⟨by simpa using henter, hup, Nat.not_lt.mp hshort⟩
    split at h
    · next hentry => exact .down hlookup hentry (ih h)
    · next hentry =>
      split at h
      · next hend =>
        cases h
        rw [List.isEmpty_iff.mp hend]
        exact .file hlookup hentry
      · cases h
    · next hentry =>
      split at h
      · next hend =>
        cases h
        rw [List.isEmpty_iff.mp hend]
        exact .free hlookup hentry
      · cases h

/-- Where names lead, a walk succeeds. -/
theorem Leads.walk_eq {t : FileTree} {here : Location} {names : List Text} {place : Place}
    (h : t.Leads here names place) : t.walk here names = .ok place := by
  induction h with
  | arrived here => rw [walk]
  | up enter _ ih => rw [walk, if_neg (by simp [enter]), if_pos rfl, ih]
  | down lookup entry _ ih =>
    rw [lookup.walk_eq, entry]
    exact ih
  | file lookup entry =>
    rw [lookup.walk_eq, entry]
    rfl
  | free lookup entry =>
    rw [lookup.walk_eq, entry]
    rfl

theorem walk_eq_ok_iff {t : FileTree} {here : Location} {names : List Text} {place : Place} :
    t.walk here names = .ok place ↔ t.Leads here names place :=
  ⟨leads_of_walk, Leads.walk_eq⟩

/-- A path leads to a place if it has bytes, none of them null and not too many, and its names lead there. -/
theorem find_eq_ok_iff {t : FileTree} {p : Path} {place : Place} :
    t.find p = .ok place ↔
      (∃ bs, Utf8.encodePath p.text = .ok bs ∧ 0 ∉ bs ∧ bs.length < maxPath) ∧
        t.Leads (t.start p) p.parts place := by
  rw [find, ← walk_eq_ok_iff]
  cases Utf8.encodePath p.text with
  | error f => simp
  | ok bs =>
    dsimp only
    by_cases hnull : 0 ∈ bs
    · rw [if_pos (List.contains_iff_mem.mpr hnull)]
      simp [hnull]
    · rw [if_neg (List.contains_iff_mem.not.mpr hnull)]
      by_cases hlong : maxPath ≤ bs.length
      · rw [if_pos hlong]
        simp [Nat.not_lt.mpr hlong]
      · rw [if_neg hlong]
        cases t.walk (t.start p) p.parts <;> simp [hnull, Nat.not_le.mp hlong]

theorem leads_of_find {t : FileTree} {p : Path} {place : Place} (h : t.find p = .ok place) :
    t.Leads (t.start p) p.parts place :=
  (find_eq_ok_iff.mp h).2

/-- A place at which a file can be put: a file, or a free name. -/
def Writable (l : Location) (place : Place) : Prop :=
  place = .free l ∨ ∃ content, place = .taken l (.file content)

theorem Writable.location_eq {l : Location} {place : Place} (h : Writable l place) : place.location = l := by
  rcases h with rfl | ⟨_, rfl⟩ <;> rfl

theorem LooksUp.put {t : FileTree} {here : Location} {name : Text} (h : t.LooksUp here name) (l : Location)
    (e : Entry) : (t.put l e).LooksUp here name :=
  ⟨h.enter, h.ne_up, h.short⟩

/-- Names that lead to a file, or to a free name, lead to the file that is put there. -/
theorem Leads.put {t : FileTree} {l : Location} {place : Place} (content : Bytes) {here : Location}
    {names : List Text} (h : t.Leads here names place) (hplace : Writable l place) :
    l ≠ [] ∧ t.entry? l ≠ some .directory ∧
      (t.put l (.file content)).Leads here names (.taken l (.file content)) := by
  induction h with
  | arrived here => rcases hplace with hplace | ⟨_, hplace⟩ <;> cases hplace
  | up enter _ ih =>
    obtain ⟨hl, hfile, hleads⟩ := ih hplace
    exact ⟨hl, hfile, .up enter hleads⟩
  | @down here name rest place lookup entry _ ih =>
    obtain ⟨hl, hfile, hleads⟩ := ih hplace
    -- the directory on the way is not what is replaced
    have hother : here ++ [name] ≠ l := by
      rintro rfl
      exact hfile entry
    exact ⟨hl, hfile, .down (lookup.put l _) (by rw [entry?_put t hl, if_neg hother, entry]) hleads⟩
  | @file here name old lookup entry =>
    obtain rfl : here ++ [name] = l := hplace.location_eq
    have hne : here ++ [name] ≠ [] := by simp
    exact ⟨hne, by simp [entry], .file (lookup.put _ _) (by rw [entry?_put t hne, if_pos rfl])⟩
  | @free here name lookup entry =>
    obtain rfl : here ++ [name] = l := hplace.location_eq
    have hne : here ++ [name] ≠ [] := by simp
    exact ⟨hne, by simp [entry], .file (lookup.put _ _) (by rw [entry?_put t hne, if_pos rfl])⟩

/-- **A path that can be written to leads to the file that is put there.** -/
theorem find_put {t : FileTree} {l : Location} {content : Bytes} {place : Place}
    (hplace : Writable l place) {p : Path} (h : t.find p = .ok place) :
    (t.put l (.file content)).find p = .ok (.taken l (.file content)) := by
  obtain ⟨hbytes, hleads⟩ := find_eq_ok_iff.mp h
  exact find_eq_ok_iff.mpr ⟨hbytes, (hleads.put content hplace).2.2⟩

/-! ## Operations -/

theorem read_eq_ok_iff {t : FileTree} {p : Path} {content : Bytes} :
    t.read p = .ok content ↔
      ∃ l, t.find p = .ok (.taken l (.file content)) ∧ (t.access l).canRead = true := by
  rw [read]
  split
  · next l c hfind =>
    rw [hfind]
    split
    · next hread => simp [hread]
    · next hread => simp [hread]
  all_goals simp_all

theorem fillFile_eq_ok_iff {t t' : FileTree} {p : Path} {l : Location} {content : Bytes} :
    t.fillFile p l content = (t', .ok ()) ↔
      (t.access l).canWrite = true ∧ (t.access l).hasRoom content = true ∧
        t.put l (.file content) = t' := by
  rw [fillFile]
  split
  · next h => simp_all
  · split <;> simp_all

/-- When a file cannot be written, nothing has happened, or there was room for a part of the content only,
and that part is there. -/
theorem fillFile_eq_error_cases {t t' : FileTree} {p : Path} {l : Location} {content : Bytes}
    {f : AccessFault} (h : t.fillFile p l content = (t', .error f)) :
    t' = t ∨ f = .system .noSpace p.text ∧
      ∃ n < content.length, t' = t.put l (.file (content.take n)) := by
  rw [fillFile] at h
  split at h
  · cases h
    exact .inl rfl
  · split at h
    · cases h
    · next hroom =>
      cases h
      -- what there is room for is less than the content
      refine .inr ⟨rfl, _, ?_, rfl⟩
      rw [Access.hasRoom] at hroom
      cases hsome : (t.access l).room with
      | none => simp [hsome] at hroom
      | some n => simpa [hsome] using hroom

theorem write_of_find {t : FileTree} {p : Path} {l : Location} {place : Place}
    (hplace : Writable l place) (hfind : t.find p = .ok place) (content : Bytes) :
    t.write p content = t.fillFile p l content := by
  rcases hplace with rfl | ⟨_, rfl⟩ <;> rw [write, hfind]

/-- A path leads to a place for a file, or no content can be written there, whatever it is. -/
theorem exists_writable_or (t : FileTree) (p : Path) :
    (∃ l place, Writable l place ∧ t.find p = .ok place) ∨
      ∃ f, ∀ content, t.write p content = (t, .error f) := by
  -- a path that cannot be found and a directory refuse any content
  cases hfind : t.find p with
  | error f => exact .inr ⟨f, fun content => by rw [write, hfind]⟩
  | ok place =>
    cases place with
    | free l => exact .inl ⟨l, _, .inl rfl, rfl⟩
    | taken l e =>
      cases e with
      | file old => exact .inl ⟨l, _, .inr ⟨old, rfl⟩, rfl⟩
      | directory => exact .inr ⟨_, fun content => by rw [write, hfind]⟩

theorem write_eq_ok_iff {t t' : FileTree} {p : Path} {content : Bytes} :
    t.write p content = (t', .ok ()) ↔
      ∃ l place, Writable l place ∧ t.find p = .ok place ∧ (t.access l).canWrite = true ∧
        (t.access l).hasRoom content = true ∧ t.put l (.file content) = t' := by
  -- the place is determined by the path
  rcases exists_writable_or t p with ⟨l, place, hplace, hfind⟩ | ⟨f, hwrite⟩
  · rw [write_of_find hplace hfind, fillFile_eq_ok_iff]
    constructor
    · rintro ⟨hcan, hroom, rfl⟩
      exact ⟨l, place, hplace, hfind, hcan, hroom, rfl⟩
    · rintro ⟨l', place', hplace', hfind', h⟩
      cases hfind.symm.trans hfind'
      rwa [← hplace'.location_eq, hplace.location_eq] at h
  · rw [hwrite]
    refine iff_of_false (by simp) ?_
    rintro ⟨l, place, hplace, hfind, hcan, hroom, -⟩
    have hfill : t.fillFile p l content = (t.put l (.file content), .ok ()) :=
      fillFile_eq_ok_iff.mpr ⟨hcan, hroom, rfl⟩
    rw [← write_of_find hplace hfind, hwrite] at hfill
    simp at hfill

/-- When a path cannot be written to, nothing has happened, or a part of the content is there. -/
theorem write_eq_error_cases {t t' : FileTree} {p : Path} {content : Bytes} {f : AccessFault}
    (h : t.write p content = (t', .error f)) :
    t' = t ∨ f = .system .noSpace p.text ∧
      ∃ l place n, Writable l place ∧ t.find p = .ok place ∧ n < content.length ∧
        t' = t.put l (.file (content.take n)) := by
  rcases exists_writable_or t p with ⟨l, place, hplace, hfind⟩ | ⟨f', hwrite⟩
  · rw [write_of_find hplace hfind] at h
    rcases fillFile_eq_error_cases h with rfl | ⟨rfl, n, hn, rfl⟩
    · exact .inl rfl
    · exact .inr ⟨rfl, l, place, n, hplace, hfind, hn, rfl⟩
  · cases (hwrite content).symm.trans h
    exact .inl rfl

/-- Writes to the path succeed, or they leave everything as it was; none is cut short. -/
def WritesWhole (t : FileTree) (p : Path) : Prop :=
  ∀ content t' f, t.write p content = (t', .error f) → t' = t

/-- A file at the end of a way stands at its location. -/
theorem Leads.entry?_file {t : FileTree} {l : Location} {content : Bytes} {here : Location}
    {names : List Text} (h : t.Leads here names (.taken l (.file content))) :
    t.entry? l = some (.file content) := by
  generalize hplace : Place.taken l (.file content) = place at h
  induction h with
  | arrived here => cases hplace
  | up _ _ ih => exact ih hplace
  | down _ _ _ ih => exact ih hplace
  | file _ entry =>
    cases hplace
    exact entry
  | free _ _ => cases hplace

theorem entry?_of_find {t : FileTree} {l : Location} {content : Bytes} {p : Path}
    (h : t.find p = .ok (.taken l (.file content))) : t.entry? l = some (.file content) :=
  (leads_of_find h).entry?_file

/-- The path leads to a file with the content; whether it may be read is another question. -/
def HasFile (t : FileTree) (p : Path) (content : Bytes) : Prop :=
  ∃ l, t.find p = .ok (.taken l (.file content))

/-- What was written is there. -/
theorem hasFile_write {t t' : FileTree} {p : Path} {content : Bytes}
    (h : t.write p content = (t', .ok ())) : t'.HasFile p content := by
  obtain ⟨l, place, hplace, hfind, -, -, rfl⟩ := write_eq_ok_iff.mp h
  exact ⟨l, find_put hplace hfind⟩

/-- A file is read where that is allowed. -/
theorem HasFile.read {t : FileTree} {p : Path} {content : Bytes} (h : t.HasFile p content)
    (hread : ∀ l, (t.access l).canRead = true) : t.read p = .ok content := by
  obtain ⟨l, hfind⟩ := h
  exact read_eq_ok_iff.mpr ⟨l, hfind, hread l⟩

/-- A file that can be read is there. -/
theorem isFile?_of_read {t : FileTree} {p : Path} {content : Bytes}
    (h : t.read p = .ok content) : t.isFile? p = .ok true := by
  obtain ⟨l, hfind, -⟩ := read_eq_ok_iff.mp h
  rw [isFile?, holds, hfind]

/-! ## One File -/

/-- The path leads to a file before and after; the file has the given content afterwards, and everything
else, at whatever location, is as it was. -/
structure Rewritten (p : Path) (content : Bytes) (before after : FileTree) : Prop where
  home : after.home = before.home
  access : after.access = before.access
  location : ∃ l old, before.find p = .ok (.taken l (.file old)) ∧
    after.find p = .ok (.taken l (.file content)) ∧
    ∀ l', after.entry? l' = if l' = l then some (.file content) else before.entry? l'

/-- A file that has the content is rewritten by doing nothing. -/
theorem Rewritten.refl {t : FileTree} {p : Path} {content : Bytes} (h : t.read p = .ok content) :
    Rewritten p content t t := by
  obtain ⟨l, hfind, -⟩ := read_eq_ok_iff.mp h
  refine ⟨rfl, rfl, l, content, hfind, hfind, fun l' => ?_⟩
  split
  · next hl => rw [hl, entry?_of_find hfind]
  · rfl

/-- Putting a content at the location of a file rewrites the file. -/
theorem Rewritten.of_put {t : FileTree} {p : Path} {l : Location} {old : Bytes}
    (hfind : t.find p = .ok (.taken l (.file old))) (content : Bytes) :
    Rewritten p content t (t.put l (.file content)) := by
  have hplace : Writable l (.taken l (.file old)) := .inr ⟨old, rfl⟩
  refine ⟨rfl, rfl, l, old, hfind, find_put hplace hfind, fun l' => ?_⟩
  obtain ⟨hl, -⟩ := (leads_of_find hfind).put content hplace
  exact entry?_put t hl _ _

theorem Rewritten.of_write {t t' : FileTree} {p : Path} {old content : Bytes}
    (hold : t.read p = .ok old) (h : t.write p content = (t', .ok ())) :
    Rewritten p content t t' := by
  obtain ⟨l, hfind, -⟩ := read_eq_ok_iff.mp hold
  obtain ⟨l', place, hplace, hfind', -, -, rfl⟩ := write_eq_ok_iff.mp h
  cases hfind.symm.trans hfind'
  cases hplace.location_eq
  exact .of_put hfind content

/-- **A write that fails**, to a file that can be read, leaves everything as it was, or it is cut short: the
file holds a part of the content then, and everything else is as it was. -/
theorem Rewritten.of_failed_write {t t' : FileTree} {p : Path} {old content : Bytes} {f : AccessFault}
    (hold : t.read p = .ok old) (h : t.write p content = (t', .error f)) :
    t' = t ∨ f = .system .noSpace p.text ∧
      ∃ n < content.length, Rewritten p (content.take n) t t' := by
  obtain ⟨l, hfind, -⟩ := read_eq_ok_iff.mp hold
  rcases write_eq_error_cases h with rfl | ⟨rfl, l', place, n, hplace, hfind', hn, rfl⟩
  · exact .inl rfl
  · cases hfind.symm.trans hfind'
    cases hplace.location_eq
    exact .inr ⟨rfl, n, hn, .of_put hfind _⟩

/-- A file that could be read can be read after it was rewritten. -/
theorem Rewritten.read {t t' : FileTree} {p : Path} {old content : Bytes}
    (h : Rewritten p content t t') (hold : t.read p = .ok old) : t'.read p = .ok content := by
  obtain ⟨l, hfind, hread⟩ := read_eq_ok_iff.mp hold
  obtain ⟨l', old', hbefore, hafter, -⟩ := h.location
  cases hfind.symm.trans hbefore
  exact read_eq_ok_iff.mpr ⟨l, hafter, by rw [h.access, hread]⟩

end FileTree

end SchemaGraft
