import SchemaGraft.Proofs.Text.Numeral
import SchemaGraft.Proofs.World.Frame
import SchemaGraft.Proofs.World.FileTree

/-!
# Files That Stay

A file keeps its content when something is made at a free name, and when another file is written.

## Architecture

- **Free names**: `FileTree.read_put_of_free`, for directories that are made and for temporary ones, whose
  names are free (`Action.entry?_freeNumber`).
- **Writing twice**: `FileTree.write_write`; a text is written into a file as if in one step
  (`Action.perform_writeText`).
- **Other files**: `FileTree.read_write_same`.
-/

namespace SchemaGraft

namespace FileTree

variable {t t' : FileTree} {l : Location} {p : Path} {content : Bytes}

/-! ## Free Names -/

/-- Nothing stands at a free name that names lead to. -/
theorem Leads.entry?_free {here : Location} {names : List Text} (h : t.Leads here names (.free l)) :
    l ≠ [] ∧ t.entry? l = none := by
  generalize hplace : Place.free l = place at h
  induction h with
  | arrived here => cases hplace
  | up _ _ ih => exact ih hplace
  | down _ _ _ ih => exact ih hplace
  | file _ _ => cases hplace
  | free _ entry =>
    cases hplace
    exact ⟨by simp, entry⟩

/-- What is put at a location that is no directory is not met on the way to a file elsewhere. -/
theorem Leads.put_of_ne {l' : Location} (e : Entry) (hl' : l' ≠ []) (hfile : t.entry? l' ≠ some .directory)
    (hne : l ≠ l') {here : Location} {names : List Text} (h : t.Leads here names (.taken l (.file content))) :
    (t.put l' e).Leads here names (.taken l (.file content)) := by
  generalize hplace : Place.taken l (.file content) = place at h ⊢
  induction h with
  | arrived here => cases hplace
  | up enter _ ih => exact .up enter (ih hplace)
  | @down here name rest place lookup entry _ ih =>
    have hother : here ++ [name] ≠ l' := by
      rintro rfl
      exact hfile entry
    exact .down (lookup.put l' e) (by rw [entry?_put t hl', if_neg hother, entry]) (ih hplace)
  | file lookup entry =>
    cases hplace
    exact .file (lookup.put l' e) (by rw [entry?_put t hl', if_neg hne, entry])
  | free _ _ => cases hplace

theorem find_put_of_ne {l' : Location} {e : Entry} (hl' : l' ≠ [])
    (hfile : t.entry? l' ≠ some .directory) (hne : l ≠ l')
    (h : t.find p = .ok (.taken l (.file content))) :
    (t.put l' e).find p = .ok (.taken l (.file content)) := by
  obtain ⟨hbytes, hleads⟩ := find_eq_ok_iff.mp h
  exact find_eq_ok_iff.mpr ⟨hbytes, hleads.put_of_ne e hl' hfile hne⟩

/-- A file is still there when something is made at a free location. -/
theorem read_put_of_free {l' : Location} {e : Entry} (hl' : l' ≠ []) (hfree : t.entry? l' = none)
    (h : t.read p = .ok content) : (t.put l' e).read p = .ok content := by
  obtain ⟨l, hfind, hread⟩ := read_eq_ok_iff.mp h
  refine read_eq_ok_iff.mpr ⟨l, find_put_of_ne hl' (by simp [hfree]) ?_ hfind, hread⟩
  rintro rfl
  rw [entry?_of_find hfind] at hfree
  cases hfree

theorem read_of_makeDirectory {p' : Path} (h : t.read p = .ok content)
    (hmake : t.makeDirectory p' = .ok t') : t'.read p = .ok content := by
  rw [makeDirectory] at hmake
  split at hmake
  · next l' hfind =>
    cases hmake
    obtain ⟨hl', hfree⟩ := (leads_of_find hfind).entry?_free
    exact read_put_of_free hl' hfree h
  · cases hmake
  · cases hmake

/-- A file is still there when directories are made, even if that fails halfway. -/
theorem read_makeDirectories (h : t.read p = .ok content) (p' : Path) :
    (t.makeDirectories p').1.read p = .ok content := by
  rw [makeDirectories]
  -- on the names from the last one up, as the parents of a directory are made first
  induction p'.parts.reverse with
  | nil =>
    rw [makeWithParents]
    dsimp only
    split
    · next hmake => exact read_of_makeDirectory h hmake
    · exact h
    · exact h
  | cons name up ih =>
    rw [makeWithParents]
    dsimp only
    split
    · next hmake => exact read_of_makeDirectory h hmake
    · split
      · next hup =>
        rw [hup] at ih
        exact ih
      · next hup =>
        rw [hup] at ih
        split
        · next hmake => exact read_of_makeDirectory ih hmake
        · exact ih
        · exact ih
    · exact h

/-! ## Writing Twice -/

theorem put_put (t : FileTree) (l : Location) (d e : Entry) :
    (t.put l d).put l e = t.put l e := by
  -- where no entry is, replacing changes nothing
  have hmap (es : List (Location × Entry)) (hl : es.lookup l = none) :
      (es.map fun m => if m.1 = l then (l, e) else m) = es := by
    refine (List.map_congr_left fun m hm => ?_).trans (List.map_id _)
    rw [if_neg]
    · rfl
    · rintro rfl
      rw [List.lookup_eq_none_iff] at hl
      simpa using hl m hm
  by_cases hthere : (t.entries.lookup l).isSome
  · have hagain : ((t.entries.map fun m => if m.1 = l then (l, d) else m).lookup l).isSome := by
      rw [lookup_replace, if_pos rfl, Option.isSome_map]
      exact hthere
    simp only [put, if_pos hthere, if_pos hagain, List.map_map]
    congr 1
    refine List.map_congr_left fun m _ => ?_
    by_cases hm : m.1 = l <;> simp [hm]
  · have hnone := Option.not_isSome_iff_eq_none.mp hthere
    simp [put, hnone, List.lookup_append, hmap _ hnone]

/-- Writing a file twice is writing it the second time, whether or not that succeeds. -/
theorem write_write {c d : Bytes} (h : t.write p c = (t', .ok ())) :
    t'.write p d = t.write p d := by
  obtain ⟨l, place, hplace, hfind, hcan, -, rfl⟩ := write_eq_ok_iff.mp h
  have hplace' : Writable l (.taken l (.file c)) := .inr ⟨c, rfl⟩
  rw [write_of_find hplace' (find_put hplace hfind), write_of_find hplace hfind, fillFile, fillFile,
    access_put, hcan]
  simp only [put_put, Bool.not_true, Bool.false_eq_true, if_false]

/-- Where not even an empty file can be written, nothing can, for the same reason. -/
theorem write_of_write_nil {f : AccessFault} (h : t.write p [] = (t', .error f)) (c : Bytes) :
    t.write p c = (t, .error f) := by
  rcases exists_writable_or t p with ⟨l, place, hplace, hfind⟩ | ⟨f', hwrite⟩
  · rw [write_of_find hplace hfind] at h ⊢
    rw [fillFile] at h ⊢
    split at h
    · next hcan =>
      cases h
      rw [if_pos hcan]
    · -- there is always room for nothing
      have hroom : (t.access l).hasRoom [] = true := by
        rw [Access.hasRoom]
        cases (t.access l).room <;> simp
      rw [if_pos hroom] at h
      cases h
  · cases (hwrite []).symm.trans h
    exact hwrite c

/-! ## Other Files -/

/-- A file has the same content when that content is written somewhere. -/
theorem read_write_same {p' : Path} (h : t.read p = .ok content)
    (hwrite : t.write p' content = (t', .ok ())) : t'.read p = .ok content := by
  obtain ⟨l', place, hplace, hfind', -, -, rfl⟩ := write_eq_ok_iff.mp hwrite
  obtain ⟨l, hfind, hread⟩ := read_eq_ok_iff.mp h
  obtain ⟨hl', hfile, -⟩ := (leads_of_find hfind').put content hplace
  by_cases hl : l = l'
  · subst hl
    exact read_eq_ok_iff.mpr ⟨l, find_put (.inr ⟨content, rfl⟩) hfind, hread⟩
  · exact read_eq_ok_iff.mpr ⟨l, find_put_of_ne hl' hfile hl hfind, hread⟩

end FileTree

/-- The location of the temporary directory with a given number. -/
def Host.temporaryLocation (host : Host) (n : ℕ) : Location :=
  host.temporary ++ [Action.temporaryName n]

theorem Host.temporaryLocation_ne_nil (host : Host) (n : ℕ) : host.temporaryLocation n ≠ [] :=
  List.concat_ne_nil _ _

namespace Action

/-! ## Directories -/

/-- An operation on files has its outcome and its effect as an action. -/
theorem perform_change (f : FileTree → FileTree × Except AccessFault Unit) (w : World) :
    perform (change f) w =
      ((f w.files).2.mapError Fault.access, { w with files := (f w.files).1 }) := by
  rw [change, perform_bind, perform_get]
  dsimp only
  rw [perform_bind, perform_modify]
  dsimp only
  cases (f w.files).2 <;> rfl

theorem temporaryName_injective : Function.Injective temporaryName := by
  intro m n h
  have hdigits : Text.ofChars (Digits.ofNat m) = Text.ofChars (Digits.ofNat n) :=
    List.append_cancel_left h
  have hchars : Digits.ofNat m = Digits.ofNat n :=
    List.map_injective_iff.mpr (fun _ _ hc => Codepoint.scalar.inj hc) hdigits
  rw [← Digits.value_ofNat m, ← Digits.value_ofNat n, hchars]

/-- There is always a number whose temporary directory is not there. -/
theorem entry?_freeNumber (t : FileTree) (temporary : Location) :
    t.entry? (temporary ++ [temporaryName (freeNumber t temporary)]) = none := by
  rw [freeNumber]
  cases h : (List.range (t.entries.length + 1)).find? fun n =>
      Option.isNone <| t.entry? (temporary ++ [temporaryName n]) with
  | some n => simpa using List.find?_some h
  | none =>
    -- otherwise there would be more entries than there are
    exfalso
    have hall := List.find?_eq_none.mp h
    let locations := (List.range (t.entries.length + 1)).map fun n => temporary ++ [temporaryName n]
    have hnodup : locations.Nodup := by
      refine List.nodup_range.map fun m n hmn => ?_
      simpa using temporaryName_injective (List.singleton_inj.mp (List.append_cancel_left hmn))
    have hsubset : locations ⊆ t.entries.map (·.1) := by
      intro l hl
      obtain ⟨n, hn, rfl⟩ := List.mem_map.mp hl
      have hthere := hall n hn
      obtain ⟨e, he⟩ : ∃ e, (temporary ++ [temporaryName n], e) ∈ t.entries := by
        simpa [FileTree.entry?] using hthere
      exact List.mem_map.mpr ⟨_, he, rfl⟩
    have hlength := (List.subperm_of_subset hnodup hsubset).length_le
    simp [locations] at hlength

/-- An action in a fresh directory is the action after the directory was made at a free location, and
before everything below it is taken away. -/
theorem perform_inFreshDirectory {α : Type} (host : Host) (body : Path → Action α) (w : World) :
    ∃ n, let here := host.temporaryLocation n
      w.files.entry? here = none ∧
      perform (inFreshDirectory host body) w =
        ((perform (body ⟨.absolute, here⟩) { w with files := w.files.put here .directory }).1,
          let after := (perform (body ⟨.absolute, here⟩)
            { w with files := w.files.put here .directory }).2
          { after with files := after.files.remove here }) := by
  refine ⟨freeNumber w.files host.temporary, entry?_freeNumber _ _, ?_⟩
  rw [inFreshDirectory, perform_bind, perform_get]
  dsimp only
  rw [perform_bind, perform_modify]
  dsimp only
  rw [perform_bind, perform_tryCatch, Host.temporaryLocation]
  rcases perform (body _) _ with ⟨f | a, v⟩
  · rfl
  · rfl

/-! ## Texts -/

/-- Writing a text that can be encoded is writing its bytes. -/
theorem perform_writeText {p : Path} {t : Text} {content : Bytes}
    (h : Utf8.encode t = .ok content) (w : World) :
    perform (writeText p t) w = perform (write p content) w := by
  rw [writeText, perform_bind, h, write, write, perform_change, perform_change]
  -- the file is emptied first: where that fails so does the write, and otherwise the second write hides it
  rcases hempty : w.files.write p [] with ⟨files, f | _⟩
  · rw [FileTree.write_of_write_nil hempty content]
    have hfiles : files = w.files := by
      have hnil := FileTree.write_of_write_nil hempty []
      rw [hempty] at hnil
      exact congrArg Prod.fst hnil
    subst hfiles
    rfl
  · dsimp only [Except.mapError]
    rw [write, perform_change]
    dsimp only
    rw [FileTree.write_write hempty]
    rfl

end Action

end SchemaGraft
