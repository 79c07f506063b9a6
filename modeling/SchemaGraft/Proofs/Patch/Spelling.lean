import SchemaGraft.Proofs.Patch.Atomicity
import SchemaGraft.Proofs.Patch.Order

/-!
# Patches of Two Spellings

A document can be spelled in many ways, and a patch must not care.  When the names of a document stay apart as
they are written, the bytes that a patch leaves are the same, too, and so is the fault when it fails.

## Architecture

- **Writing**: `PatchTable.alike_patchedSchema`, for the schemas of two spellings of a document.
- **Faults**: `Fault.Same` for what is wrong with two files that spell the same document.
- **Files**: `PatchTable.perform_patchFile_fst`, the outcome as a function of the content of the file.
- **Two spellings**: `Schema.ofJson_respelled` and `PatchTable.outcome_respelled`, for loading and for
  patching a file; `PatchTable.patch_respelled` is the part between.
-/

namespace SchemaGraft

open Except (LiftRel)
open Json (lookup)

/-! ## Writing -/

namespace PatchTable

variable {t : PatchTable} {encodable : Prop}

/-- With the same argument at the end of their lists, two spellings of an instruction are written alike. -/
theorem alike_push {u v : Json} {ix ix' : Instruction}
    (huv : Json.Respelled encodable u v)
    (h : Instruction.check (.ofJson u) = .ok ix) (h' : Instruction.check (.ofJson v) = .ok ix')
    {a : Argument} (ha : a.WellFormed) : Format.instruction.Alike encodable (ix.push a) (ix'.push a) := by
  have hwellFormed := Instruction.wellFormed_push
    (Format.lawful_instruction.wellFormed huv.apart.proper h) ha
  rw [← Format.read_instruction, Format.instruction, Format.read_record_iff] at h h'
  obtain ⟨ms, rfl, -, h⟩ := h
  obtain ⟨ns, rfl, -, h'⟩ := h'
  obtain ⟨hname, h⟩ := Part.readJson_pair_iff.mp h
  obtain ⟨hname', h'⟩ := Part.readJson_pair_iff.mp h'
  obtain ⟨hargs, hextra⟩ := Part.readJson_pair_iff.mp h
  obtain ⟨hargs', hextra'⟩ := Part.readJson_pair_iff.mp h'
  -- the two records agree part by part; among the parts only the arguments grow, by the same one
  have hrelated : Option.Rel (List.Forall₂ (Format.argument.Alike encodable)) ix.args ix'.args :=
    Part.related_possible (Format.related_list Format.lawful_argument.alike) huv hargs hargs'
  have harguments : List.Forall₂ (Format.argument.Alike encodable) ix.arguments ix'.arguments := by
    rw [Instruction.arguments, Instruction.arguments]
    generalize ix.args = o at hrelated ⊢
    generalize ix'.args = o' at hrelated ⊢
    cases hrelated with
    | none => exact .nil
    | some hargs => exact hargs
  apply Format.Alike.record fun p hp =>
    Format.nodup_of_write_record Format.lawful_instruction hwellFormed hp
  refine Part.Alike.pair ?_ (Part.Alike.pair ?_ ?_)
  · exact (Part.lawful_required _ Format.lawful_text).alike huv hname hname'
  · apply Part.alike_possible
    apply Format.alike_list
    exact List.rel_append harguments (.cons (.refl _ _ a) .nil)
  · exact Part.lawful_extras.alike huv hextra hextra'

/-- Two spellings of an instruction are patched alike. -/
theorem alike_patched (ht : t.WellFormed) {u v : Json} {ix ix' : Instruction}
    (huv : Json.Respelled encodable u v)
    (h : Instruction.check (.ofJson u) = .ok ix) (h' : Instruction.check (.ofJson v) = .ok ix') :
    Format.instruction.Alike encodable (t.patched ix) (t.patched ix') := by
  have hordered : ix.ordered = ix'.ordered := by
    have hreads := Format.lawful_instruction.orderless huv.apart.proper huv.sorted
    rw [Format.read_instruction, h, h'] at hreads
    cases hreads with
    | ok hordered => exact hordered
  -- the order decides what a rule does, so it changes both instructions or none
  rcases patched_cases (t := t) hordered with ⟨rule, hrule, hix, hix'⟩ | ⟨hix, hix'⟩
  · rw [hix, hix']
    exact alike_push huv h h' (ht.append rule hrule)
  · rw [hix, hix']
    exact Format.lawful_instruction.alike huv h h'

/-- **Two spellings of a document are written alike once they are patched.** -/
theorem alike_patchedSchema (ht : t.WellFormed) {u v : Json} {s s' : Schema}
    (huv : Json.Respelled encodable u v)
    (h : Schema.check (.ofJson u) = .ok s) (h' : Schema.check (.ofJson v) = .ok s') :
    Format.schema.Alike encodable (t.patchedSchema s) (t.patchedSchema s') := by
  have hwellFormed : Format.schema.WellFormed (t.patchedSchema s) :=
    ht.patchedSchema (Schema.wellFormed_of_check huv.apart.proper h)
  rw [← Format.read_schema, Format.schema, Format.read_record_iff] at h h'
  obtain ⟨ms, rfl, -, h⟩ := h
  obtain ⟨ns, rfl, -, h'⟩ := h'
  simp only [Part.readJson_pair_iff] at h h'
  obtain ⟨hversion, hname, hinstructions, htypes, haccounts, herrors, hextra⟩ := h
  obtain ⟨hversion', hname', hinstructions', htypes', haccounts', herrors', hextra'⟩ := h'
  -- the instructions are patched one by one; all other parts are those of before
  have hrelated : Option.Rel (List.Forall₂ fun ix ix' =>
      Format.instruction.Alike encodable (t.patched ix) (t.patched ix')) (some s.instructions)
      (some s'.instructions) := by
    apply Part.related_possible _ huv (Part.readJson_required_iff.mp hinstructions)
      (Part.readJson_required_iff.mp hinstructions')
    intro u v ixs ixs' huv hixs hixs'
    have hlist {w : Json} {ixs : List Instruction} (h : Format.instructions.read (.ofJson w) = .ok ixs) :
        (Format.list Format.instruction).read (.ofJson w) = .ok ixs :=
      (Format.checkInstructions_eq_ok_iff.mp h).1
    exact Format.related_list (alike_patched ht) huv (hlist hixs) (hlist hixs')
  have hpatched : List.Forall₂ (Format.instruction.Alike encodable) (s.instructions.map t.patched)
      (s'.instructions.map t.patched) := by
    rw [List.forall₂_map_left_iff, List.forall₂_map_right_iff]
    cases hrelated with
    | some hrelated => exact hrelated
  apply Format.Alike.record fun p hp =>
    Format.nodup_of_write_record Format.lawful_schema hwellFormed hp
  refine Part.Alike.pair ?_ (Part.Alike.pair ?_ (Part.Alike.pair ?_ (Part.Alike.pair ?_
    (Part.Alike.pair ?_ (Part.Alike.pair ?_ ?_)))))
  · exact (Part.lawful_possible _ Format.lawful_optionalText).alike huv hversion hversion'
  · exact (Part.lawful_possible _ Format.lawful_optionalText).alike huv hname hname'
  · exact Part.alike_possible (Format.alike_list hpatched)
  · exact (Part.lawful_required _ Format.lawful_typeDef.list).alike huv htypes htypes'
  · exact (Part.lawful_possible _ Format.lawful_mapping.list).alike huv haccounts haccounts'
  · exact (Part.lawful_possible _ Format.lawful_errorDef.list).alike huv herrors herrors'
  · exact Part.lawful_extras.alike huv hextra hextra'

end PatchTable

/-! ## Faults -/

/-- The same fault of two files that spell the same document: what is wrong with a schema is said of the file
that holds it, and of several values that cannot be written the first one is told. -/
inductive Fault.Same (encodable : Prop) (p p' : Path) : Fault → Fault → Prop
  /-- The files do not describe a schema, for the same reason. -/
  | malformed (f : SchemaFault) :
    Same encodable p p' (Schema.malformed p.text f) (Schema.malformed p'.text f)
  /-- What the files describe cannot be written. -/
  | plain {f f' : PlainFault} (h : PlainFault.Kindred encodable f f') :
    Same encodable p p' (.plain f) (.plain f')
  /-- The fault is not one of a file. -/
  | other (f : Fault) : Same encodable p p' f f

namespace Schema

variable {p p' : Path} {encodable : Prop}

/-- Schemas that are written alike have the same canonical text, or kindred faults instead of one. -/
theorem canonical_congr {s s' : Schema} (h : Format.schema.Alike encodable s s') :
    LiftRel (PlainFault.Kindred encodable) Eq s.canonical s'.canonical := by
  rw [Format.Alike, Format.write_schema, Format.write_schema] at h
  rw [canonical, canonical]
  refine h.bind fun j j' hsorted => .ok ?_
  rw [Json.canonical, Json.canonical, hsorted]

theorem bytes_congr {s s' : Schema}
    (h : LiftRel (PlainFault.Kindred encodable) Eq s.canonical s'.canonical) :
    LiftRel (Fault.Same encodable p p') Eq s.bytes s'.bytes := by
  rw [bytes, bytes, text, text]
  generalize s.canonical = x at h ⊢
  generalize s'.canonical = x' at h ⊢
  -- equal texts have equal bytes, and the same bytes to fail on
  cases h with
  | error h => exact .error (.plain h)
  | ok h =>
    rw [h]
    dsimp only
    rw [Except.ok_bind]
    split
    · exact .ok rfl
    · exact .error (.other _)

/-- Two spellings of a value are accepted as the same schema up to order, or rejected for the same
reason. -/
theorem ofJson_respelled {u v : Json} (hu : u.Proper) (huv : u.sorted = v.sorted) :
    LiftRel (Fault.Same encodable p p') (fun s s' => s.ordered = s'.ordered) (ofJson p.text u)
      (ofJson p'.text v) := by
  -- only a mapping can be a schema
  rcases Json.sorted_eq_cases huv with
    ⟨hscalar, rfl⟩ | ⟨us, vs, rfl, rfl, -⟩ | ⟨ms, ns, rfl, rfl, hperm⟩
  · cases v with
    | list items => cases hscalar
    | object ms => cases hscalar
    | _ => exact .error (.malformed _)
  · exact .error (.malformed _)
  · -- both lack the same members
    have hlacking : (requiredMembers.filter fun n => (lookup (Text.ofString n) ms).isNone) =
        requiredMembers.filter fun n => (lookup (Text.ofString n) ns).isNone := by
      apply List.filter_congr
      intro n _
      have hsorted := Json.lookup_sorted (Json.everywhere_object.mp hu).1 hperm (Text.ofString n)
      rw [← Option.isNone_map (f := Json.sorted), hsorted, Option.isNone_map]
    rw [ofJson, ofJson, hlacking]
    split
    · have hcheck := Format.lawful_schema.orderless hu huv
      rw [Format.read_schema] at hcheck
      simp only [Format.ordered_schema] at hcheck
      generalize Schema.check (.ofJson (.object ms)) = x at hcheck ⊢
      generalize Schema.check (.ofJson (.object ns)) = x' at hcheck ⊢
      cases hcheck with
      | ok h => exact .ok h
      | error h =>
        rw [h]
        exact .error (.malformed _)
    · exact .error (.malformed _)

end Schema

/-! ## Files -/

/-- Writes to the path succeed, whatever the content is. -/
def FileTree.Accepts (t : FileTree) (p : Path) : Prop :=
  ∀ content, (t.write p content).2 = .ok ⟨⟩

namespace PatchTable

variable {t : PatchTable} {strict : Bool} {p p' : Path}

/-- What becomes of a schema file with the given content: the patched schema and the report, or the first
fault on the way to the bytes that are written back. -/
def outcome (t : PatchTable) (strict : Bool) (source : Text) (content : Bytes) :
    Except Fault (Schema × Report) := do
  let s ← Schema.ofBytes source content
  let x ← t.patchingOutcome strict s
  let _ ← x.1.bytes
  return x

/-- Updating a file that can be read and written has the outcome that its content decides. -/
theorem perform_updateFile_fst {w : World} {content : Bytes} (hread : w.files.read p = .ok content)
    (haccepts : w.files.Accepts p) :
    (perform (t.updateFile strict p) w).1.map (fun x => (x.1, x.2.1)) =
      t.outcome strict p.text content := by
  rw [updateFile, outcome, perform_bind, Schema.perform_load_of_read hread]
  cases Schema.ofBytes p.text content with
  | error f => rfl
  | ok s =>
    dsimp only
    rw [Except.ok_bind, perform_bind, perform_patching]
    generalize t.patchingOutcome strict s = outcome
    generalize ((t.patch strict s).1.takeWhile Notice.isPrintable).map Event.noticed = events
    rcases outcome with f | ⟨patched, report⟩
    · rfl
    · dsimp only
      rw [Except.ok_bind, perform_bind]
      dsimp only
      cases hbytes : patched.bytes with
      | error f =>
        rw [Schema.perform_save_of_bytes_eq_error hbytes]
        rfl
      | ok content' =>
        rw [Schema.perform_save_of_read (w := { w with trace := w.trace ++ events }) hread hbytes]
        -- whether the file has the bytes already makes no difference to the outcome
        by_cases hsame : content = content'
        · rw [if_pos hsame]
          rfl
        · rw [if_neg hsame, haccepts content']
          rfl

/-- Patching a file as a part of a run that allows it has this outcome as well. -/
theorem perform_patchFile_fst {q : Pipeline} {run : Run} {content : Bytes}
    (hadvance : q.run.advance .patching = .ok run) (hread : q.world.files.read p = .ok content)
    (haccepts : q.world.files.Accepts p) :
    (perform (t.patchFile strict p) q).1 = t.outcome strict p.text content := by
  rw [perform_patchFile hadvance, ← perform_updateFile_fst hread haccepts]
  rcases perform (t.updateFile strict p) q.world with ⟨f | ⟨s, r, changed⟩, w⟩ <;> rfl

theorem read_of_patchFile (ht : t.conflict? = none) {q q' : Pipeline} {s : Schema} {r : Report}
    (h : perform (t.patchFile strict p) q = (.ok (s, r), q')) :
    ∃ bytes, s.bytes = .ok bytes ∧ q'.world.files.read p = .ok bytes := by
  obtain ⟨run₁, run₂, changed, w, -, -, hupdate, rfl⟩ := perform_patchFile_eq_ok_iff.mp h
  obtain ⟨content, loaded, bytes, -, -, -, -, -, -, hbytes, hread⟩ := read_of_updateFile ht hupdate
  exact ⟨bytes, hbytes, hread⟩

/-- As actions, patches of schemas that are the same up to order have the same outcome up to order. -/
theorem patchingOutcome_respelled (strict : Bool) (ht : t.conflict? = none) {s s' : Schema}
    (h : s.ordered = s'.ordered) :
    LiftRel Eq (fun x x' => x.1.ordered = x'.1.ordered ∧ x.2 = x'.2) (t.patchingOutcome strict s)
      (t.patchingOutcome strict s') := by
  have hshown : (t.patch strict s).1.all Notice.isPrintable = (t.patch strict s').1.all Notice.isPrintable := by
    -- which records can be shown depends on the order alone
    have hall (notices : List Notice) :
        notices.all Notice.isPrintable = (notices.map Notice.isPrintable).all id := by
      rw [List.all_map]
      rfl
    rw [hall, isPrintable_notices_congr strict ht h, ← hall]
  rw [patchingOutcome, patchingOutcome, hshown]
  split
  · exact (patch_respelled strict ht h).mapError fun f f' hf => congrArg _ hf
  · exact .error rfl

/-- A patch that succeeds as an action succeeds. -/
theorem patch_of_patchingOutcome {s : Schema} {x : Schema × Report}
    (h : t.patchingOutcome strict s = .ok x) : (t.patch strict s).2 = .ok x := by
  rw [patchingOutcome] at h
  -- the outcome is that of the patch once all records have been shown
  split at h
  · cases hpatch : (t.patch strict s).2 with
    | error f =>
      rw [hpatch] at h
      cases h
    | ok y =>
      rw [hpatch] at h
      cases h
      rfl
  · cases h

theorem outcome_respelled {encodable : Prop} (ht : t.WellFormed) (strict : Bool) (p p' : Path)
    {content content' : Bytes} {u v : Json} (hu : Json.ofBytes content = some u)
    (hv : Json.ofBytes content' = some v) (huv : Json.Respelled encodable u v) :
    LiftRel (Fault.Same encodable p p')
      (fun x x' => x.1.ordered = x'.1.ordered ∧ x.2 = x'.2 ∧
        LiftRel (Fault.Same encodable p p') Eq x.1.bytes x'.1.bytes)
      (t.outcome strict p.text content) (t.outcome strict p'.text content') := by
  rw [outcome, outcome, Schema.ofBytes_eq_ofJson hu, Schema.ofBytes_eq_ofJson hv]
  apply (Schema.ofJson_respelled huv.apart.proper huv.sorted).attach.bind
  rintro s s' ⟨hs, hs', hordered⟩
  have hpatching := (patchingOutcome_respelled strict ht.unambiguous hordered).attach
  have hsame : LiftRel (Fault.Same encodable p p') _ _ _ := hpatching.mono_error fun f f' hf => by
    rw [hf]
    exact .other f'
  -- load, patch and save are compared one after the other, each under the results of those before
  refine hsame.bind ?_
  rintro ⟨patched, r⟩ ⟨patched', r'⟩ ⟨hpatch, hpatch', hpatched, hreport⟩
  obtain ⟨-, -, -, rfl⟩ := (patch_eq_ok_iff ht.unambiguous).mp (patch_of_patchingOutcome hpatch)
  obtain ⟨-, -, -, rfl⟩ := (patch_eq_ok_iff ht.unambiguous).mp (patch_of_patchingOutcome hpatch')
  have hbytes : LiftRel (Fault.Same encodable p p') Eq (t.patchedSchema s).bytes (t.patchedSchema s').bytes :=
    Schema.bytes_congr (Schema.canonical_congr (alike_patchedSchema ht huv
      (Schema.ofJson_eq_ok_iff.mp hs) (Schema.ofJson_eq_ok_iff.mp hs')))
  exact hbytes.bind fun bytes bytes' _ => .ok ⟨hpatched, hreport, hbytes⟩

/-! ## Main Result -/

/-- **The spelling of a document does not matter.**  Take two files that denote the same JSON value up to
the order of members, at any depth.  Both load as the same schema up to order, or both are malformed for
the same reason; the schemas have the same report, and both are patched, with the same result up to order,
or both are refused for the same reason.  If no two members of an object get the same name when they are
written, the schemas have the same canonical text, or neither has one, and patching the files, strictly or not,
either succeeds for both, with the same report and the same bytes in both files, or fails for both with the same
fault; only where a name has no encoding, it may be another value that is told to be too deep or to have such
a name. -/
theorem patchFile_respelled (ht : t.WellFormed) {q q' : Pipeline} {content content' : Bytes} {u v : Json}
    (hread : q.world.files.read p = .ok content) (hread' : q'.world.files.read p' = .ok content')
    (hu : Json.ofBytes content = some u) (hv : Json.ofBytes content' = some v)
    (huv : u.sorted = v.sorted) (hrun : q.run = q'.run) :
    LiftRel (Fault.Same u.NamesEncodable p p')
        (fun s s' => s.ordered = s'.ordered ∧ t.coverage s = t.coverage s' ∧
          LiftRel Eq (fun x x' => x.1.ordered = x'.1.ordered ∧ x.2 = x'.2) (t.patch strict s).2
            (t.patch strict s').2 ∧
          (u.NamesApart → LiftRel (PlainFault.Kindred u.NamesEncodable) Eq s.canonical s'.canonical))
        (perform (Schema.load p) q.world).1 (perform (Schema.load p') q'.world).1 ∧
      (u.NamesApart → q.world.files.Accepts p → q'.world.files.Accepts p' →
        LiftRel (Fault.Same u.NamesEncodable p p')
          (fun x x' => x.1.ordered = x'.1.ordered ∧ x.2 = x'.2 ∧
            ∃ bytes, (perform (t.patchFile strict p) q).2.world.files.read p = .ok bytes ∧
              (perform (t.patchFile strict p') q').2.world.files.read p' = .ok bytes)
          (perform (t.patchFile strict p) q).1 (perform (t.patchFile strict p') q').1) := by
  have hproper := Json.proper_of_ofBytes hu
  have hmoderate := Json.moderate_of_ofBytes hu
  constructor
  · rw [Schema.perform_load_of_read hread, Schema.perform_load_of_read hread',
      Schema.ofBytes_eq_ofJson hu, Schema.ofBytes_eq_ofJson hv]
    apply (Schema.ofJson_respelled hproper huv).attach.mono
    rintro s s' ⟨hs, hs', hordered⟩
    refine ⟨hordered, coverage_congr ht.unambiguous hordered,
      patch_respelled strict ht.unambiguous hordered, fun hapart => ?_⟩
    exact Schema.canonical_congr (Format.lawful_schema.alike ⟨hapart, id, hmoderate, huv⟩
      (Schema.ofJson_eq_ok_iff.mp hs) (Schema.ofJson_eq_ok_iff.mp hs'))
  · intro hapart haccepts haccepts'
    -- the runs are equal, so the stage starts in both or in neither
    cases hadvance : q.run.advance .patching with
    | error f =>
      have hadvance' : q'.run.advance .patching = .error f := hrun ▸ hadvance
      rw [patchFile, perform_bind, Stage.perform_advance, hadvance, patchFile, perform_bind,
        Stage.perform_advance, hadvance']
      exact .error (.other f)
    | ok run =>
      have hadvance' : q'.run.advance .patching = .ok run := hrun ▸ hadvance
      have hrespelled : Json.Respelled u.NamesEncodable u v := ⟨hapart, id, hmoderate, huv⟩
      have houtcome := outcome_respelled ht strict p p' hu hv hrespelled
      rw [← perform_patchFile_fst hadvance hread haccepts,
        ← perform_patchFile_fst hadvance' hread' haccepts'] at houtcome
      apply houtcome.attach.mono
      rintro ⟨s, r⟩ ⟨s', r'⟩ ⟨hpatch, hpatch', hordered, hreport, hbytes⟩
      obtain ⟨bytes, hs, hfile⟩ := read_of_patchFile ht.unambiguous (Prod.ext hpatch rfl)
      obtain ⟨bytes', hs', hfile'⟩ := read_of_patchFile ht.unambiguous (Prod.ext hpatch' rfl)
      rw [hs, hs'] at hbytes
      cases hbytes with
      | ok hbytes =>
        cases hbytes
        exact ⟨hordered, hreport, bytes, hfile, hfile'⟩

end PatchTable

/-! ## Two Documents in Two Spellings -/

namespace Spelled

/-- A document with an object of two members. -/
def document : Json :=
  .object [("instructions", .list []), ("types", .list []),
    ("x", .object [("a", .bool true), ("b", .bool false)])]

/-- The document with its members in another order. -/
def swapped : Json :=
  .object [("x", .object [("b", .bool false), ("a", .bool true)]), ("types", .list []),
    ("instructions", .list [])]

/-- The schema of the document. -/
def schema : Schema where
  instructions := []
  types := []
  extra := [("x", .object [(.text "a", .scalar (.bool true)), (.text "b", .scalar (.bool false))])]

/-- A file that denotes the document. -/
def content : Bytes :=
  Utf8.encodeChars
    "\x7b\"instructions\":[],\"types\":[],\"x\":\x7b\"a\":true,\"b\":false\x7d\x7d".toList

/-- A file that denotes the swapped document, with other blanks and with an escape. -/
def swappedContent : Bytes :=
  Utf8.encodeChars
    "\x7b\"x\":\x7b\"\\u0062\": false, \"a\": true\x7d,\n\"types\":[],\"instructions\":[]\x7d".toList

/-- A world of one file. -/
def world (content : Bytes) : World where
  files := { home := [], entries := [(["idl.json"], .file content)] }

/-- The path of the file. -/
def path : Path :=
  ⟨.relative, ["idl.json"]⟩

theorem sorted_swapped : document.sorted = swapped.sorted := by
  cbv

set_option maxRecDepth 10000 in
theorem ofBytes_content : Json.ofBytes content = some document := by
  cbv

set_option maxRecDepth 10000 in
theorem ofBytes_swappedContent : Json.ofBytes swappedContent = some swapped := by
  cbv

theorem encodable_document : document.TextsEncodable ∧ document.NamesEncodable := by
  simp [document, Json.TextsEncodable, Json.NamesEncodable, Text.encodable_ofString]
  exact ⟨⟨trivial, trivial⟩, trivial, trivial⟩

theorem canonical_schema : schema.canonical = .ok document.canonical :=
  Schema.canonical_eq_ok_iff.mpr ⟨document, rfl, rfl⟩

theorem ofBytes_schema : Schema.ofBytes path.text content = .ok schema :=
  Schema.ofBytes_eq_ok_iff.mpr ⟨document, ofBytes_content, rfl⟩

/-- Files of this kind can be written, whatever is in them. -/
theorem accepts_world (content : Bytes) : (world content).files.Accepts path :=
  fun _ => rfl

/-- The built-in table leaves both files with the same bytes. -/
theorem patchFile_swapped :
    ∃ r q s' q', perform (PatchTable.phoenix.patchFile false path) { world := world content } =
        (.ok (schema, r), q) ∧
      perform (PatchTable.phoenix.patchFile false path) { world := world swappedContent } =
        (.ok (s', r), q') ∧
      schema.ordered = s'.ordered ∧
      ∃ bytes, q.world.files.read path = .ok bytes ∧ q'.world.files.read path = .ok bytes := by
  have hencodable := (Json.encodable_canonical encodable_document.2).mpr encodable_document.1
  obtain ⟨q, h⟩ : ∃ q, perform (PatchTable.phoenix.patchFile false path)
      { world := world content } = (.ok (schema, PatchTable.phoenix.reportOn schema), q) :=
    PatchTable.exists_patchFile PatchTable.conflict?_phoenix rfl ofBytes_schema (by simp)
      (PatchTable.shows_iff.mpr fun _ h => nomatch h)
      (Schema.bytes_eq_ok_iff.mpr ⟨_, canonical_schema, Utf8.encode_ok_iff.mpr ⟨hencodable, rfl⟩⟩)
      (accepts_world content _)
  -- two texts without lone surrogates do not run into one another when they are replaced
  have hapart := Json.namesApart_of_namesEncodable (Json.proper_of_ofBytes ofBytes_content)
    encodable_document.2
  have hread : (world content).files.read path = .ok content := rfl
  have hread' : (world swappedContent).files.read path = .ok swappedContent := rfl
  have hpatch := (@PatchTable.patchFile_respelled PatchTable.phoenix false path path
    PatchTable.wellFormed_phoenix { world := world content } { world := world swappedContent } content
    swappedContent document swapped hread hread' ofBytes_content ofBytes_swappedContent sorted_swapped
    rfl).2 hapart (accepts_world content) (accepts_world swappedContent)
  rcases h' : perform (PatchTable.phoenix.patchFile false path) { world := world swappedContent }
    with ⟨x', q'⟩
  rw [h, h'] at hpatch
  obtain ⟨⟨s', r'⟩, rfl, hordered, rfl, bytes, hbytes, hbytes'⟩ := hpatch.exists_ok
  exact ⟨_, q, s', q', h, rfl, hordered, bytes, hbytes, hbytes'⟩

end Spelled

namespace Colliding

/-- A name that is a lone surrogate. -/
def name : Text :=
  [.surrogate (Fin.last _)]

/-- A name that is another lone surrogate. -/
def otherName : Text :=
  [.surrogate (Fin.last _).rev]

/-- A document with two such members in an account. -/
def document : Json :=
  .object [("accounts", .list [.object [(name, .bool true), (otherName, .bool false)]]),
    ("instructions", .list []), ("types", .list [])]

/-- The document with these two members swapped. -/
def swapped : Json :=
  .object [("accounts", .list [.object [(otherName, .bool false), (name, .bool true)]]),
    ("instructions", .list []), ("types", .list [])]

/-- The schema of the document. -/
def schema : Schema where
  instructions := []
  types := []
  accounts := some [[(name, .scalar (.bool true)), (otherName, .scalar (.bool false))]]

/-- The schema of the swapped document. -/
def swappedSchema : Schema where
  instructions := []
  types := []
  accounts := some [[(otherName, .scalar (.bool false)), (name, .scalar (.bool true))]]

/-- Both names are written in the same way, and the member that comes last is the one that is kept. -/
theorem canonical_swapped : document.sorted = swapped.sorted ∧
    Schema.check (.ofJson document) = .ok schema ∧ Schema.check (.ofJson swapped) = .ok swappedSchema ∧
    (∃ t t', schema.canonical = .ok t ∧ swappedSchema.canonical = .ok t' ∧ t ≠ t') := by
  refine ⟨by cbv, rfl, rfl, ?_⟩
  -- the value that is kept shows in the length of the text
  have hlength : schema.canonical.toOption.map List.length = some 92 := by cbv
  have hlength' : swappedSchema.canonical.toOption.map List.length = some 91 := by cbv
  cases ht : schema.canonical with
  | error f =>
    rw [ht] at hlength
    cases hlength
  | ok t =>
    cases ht' : swappedSchema.canonical with
    | error f =>
      rw [ht'] at hlength'
      cases hlength'
    | ok t' =>
      refine ⟨t, t', rfl, rfl, ?_⟩
      rintro rfl
      rw [ht, ← ht', hlength'] at hlength
      cases hlength

end Colliding

end SchemaGraft
