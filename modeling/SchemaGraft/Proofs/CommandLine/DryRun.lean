import SchemaGraft.Proofs.CommandLine.Patching
import SchemaGraft.Proofs.World.Location

/-!
# Checking before Patching

A check predicts what a patch will do.  It changes no file; it shows the table that a successful patch shows;
it fails when the patch fails.  After a successful patch, nothing is left to patch and the same names are
missing.  A check that reads the patch table again finds the same table, unless the table is in the file
that was patched: there it may have another meaning when the file is in canonical form.

## Architecture

- **Tables**: `PatchTable.dependsOn_load`, and `PatchTable.perform_load_of_rewritten` for a table in another
  file.
- **Patched files**: `survey_after_patchFile` and `trace_of_patchFile`.
- **Main result**: `Predicted` is what a patch and a check have in common; `check_predicts_patch`.
-/

namespace SchemaGraft

/-! ## Tables -/

namespace PatchTable

variable {table : Option Text} {t : PatchTable} {p : Path} {w w' : World}

/-- Which table is loaded depends on the file at its path, and on who may read it. -/
theorem dependsOn_load (h : givenPath? table = some p) :
    DependsOn (fun w : World => (w.files.find p, w.files.access)) (load table) := by
  rw [load, h]
  -- what is looked at: whether the file is there, and then what it holds
  refine DependsOn.bind (Action.dependsOn_look fun _ _ hview =>
    FileTree.exists?_congr (congrArg Prod.fst hview)) (Action.keeps_look _) fun isThere => ?_
  split
  · refine DependsOn.bind ?_ (DocumentKind.keeps_load _ _) fun ms => ?_
    · refine DependsOn.bind ?_ (Action.keeps_readText p) fun cs => ?_
      · refine DependsOn.bind (Action.dependsOn_look fun _ _ hview =>
          FileTree.read_congr (congrArg Prod.fst hview) (congrArg Prod.snd hview))
          (Action.keeps_look _) fun content => ?_
        split
        · exact dependsOn_pure _
        · exact dependsOn_throw _
      · split
        · exact dependsOn_pure _
        · exact dependsOn_throw _
    · split
      · exact dependsOn_pure _
      · exact dependsOn_throw _
      · exact dependsOn_throw _
  · exact dependsOn_throw _

/-- Where the path of the table leads to the same place, the same table is loaded. -/
theorem perform_load_congr (hgiven : givenPath? table = some p)
    (hfind : w'.files.find p = w.files.find p) (haccess : w'.files.access = w.files.access)
    (hload : perform (load table) w = (.ok t, w)) : perform (load table) w' = (.ok t, w') := by
  have hsame := dependsOn_load hgiven (Prod.ext hfind haccess)
  rw [hload] at hsame
  exact Prod.ext hsame (keeps_load table w')

/-- A table that is not in the file that was rewritten is loaded again. -/
theorem perform_load_of_rewritten {content : Bytes}
    (h : FileTree.Rewritten p content w.files w'.files)
    (hother : ∀ q, givenPath? table = some q → w.files.location q ≠ w.files.location p)
    (hload : perform (load table) w = (.ok t, w)) : perform (load table) w' = (.ok t, w') := by
  cases hgiven : givenPath? table with
  | none =>
    rw [load, hgiven] at hload ⊢
    cases hload
    rfl
  | some q =>
    exact perform_load_congr hgiven (FileTree.find_of_rewritten h (hother q hgiven)) h.access hload

end PatchTable

/-! ## Patched Files -/

namespace CommandLine

variable {t : PatchTable} {s : Schema} {r : Report} {p : Path} {w w' : World} {q : Pipeline}
  {path : Text} {table : Option Text} {isStrict : Bool}

/-- After a patch, nothing is left to patch and the same names are missing. -/
theorem survey_after_patchFile (ht : t.WellFormed)
    (h : perform (t.patchFile isStrict p) { world := w } = (.ok (s, r), q))
    (hfiles : w'.files = q.world.files) :
    ∃ s' r', perform (Schema.load p) w' = (.ok s', w') ∧ t.coverage s' = .ok r' ∧
      r'.patched = [] ∧ r'.missing = r.missing := by
  obtain ⟨_, r', _, hagain, -, -, hpatched, hmissing, -⟩ := PatchTable.patchFile_twice ht h hfiles
  obtain ⟨s', hload, hcoverage, -⟩ := coverage_of_patchFile ht.unambiguous hagain
  exact ⟨s', r', hload, hcoverage, hpatched, hmissing⟩

/-- Patching a file shows nothing but notices. -/
theorem trace_of_patchFile (h : perform (t.patchFile isStrict p) { world := w } = (.ok (s, r), q)) :
    ∃ notices : List Notice, q.world.trace = w.trace ++ notices.map .noticed := by
  obtain ⟨_, _, changed, w₁, -, -, hupdate, rfl⟩ := PatchTable.perform_patchFile_eq_ok_iff.mp h
  obtain ⟨_, loaded, -, -, -, -, hsave⟩ := PatchTable.perform_updateFile_eq_ok_iff.mp hupdate
  refine ⟨(t.patch isStrict loaded).1 ++ [.saved p.text changed], ?_⟩
  rw [(Schema.keeps_trace_save s p).eq hsave, List.map_append, ← List.append_assoc]
  rfl

theorem drift_iff : (isStrict && !r.missing.isEmpty) = true ↔ isStrict = true ∧ r.missing ≠ [] := by
  simp

/-! ## Main Result -/

/-- What a patch that has turned one world into another has in common with a check: the check shows the
table that the patch shows, and ends with the exit status zero as well.  The report on the patched file, with
the table that was used, says that nothing is left to patch and that the same names are missing.  A check
makes this report, unless the table is in the file that was patched. -/
inductive Predicted (dry : Action Exit) (path : Text) (table : Option Text) (w w' : World) : Prop where
  | intro {p : Path} {t : PatchTable} {r r' : Report} {s : Schema} {shown : TextTable} {line : Text}
      {notices : List Notice}
      (argument : perform (argumentPath path) w = (.ok p, w))
      (load : perform (PatchTable.load table) w = (.ok t, w))
      (report : perform (survey p table) w = (.ok r, w))
      (check : perform dry w =
        (.ok (.status 0), { w with trace := w.trace ++ [.tabulated shown] }))
      (patch : w'.trace = w.trace ++ notices.map .noticed ++ [.tabulated shown, .printed line])
      (schema : perform (Schema.load p) w' = (.ok s, w'))
      (coverage : t.coverage s = .ok r') (done : r'.patched = []) (missing : r'.missing = r.missing)
      (again : (∀ q, givenPath? table = some q → w.files.location q ≠ w.files.location p) →
        perform (survey p table) w' = (.ok r', w')) :
    Predicted dry path table w w'

variable {dry real : List Text} {host : Host} {registry : Registry}

/-- **A successful patch was predicted.** -/
theorem predicted (hdry : request dry = some (.carryOut (.patch path table isStrict true)))
    (hreal : request real = some (.carryOut (.patch path table isStrict false)))
    (h : perform (execute host registry real) w = (.ok (.status 0), w')) :
    Predicted (execute host registry dry) path table w w' := by
  rcases perform_execute_cases hreal host registry w with
    ⟨f, -, hexecute⟩ | ⟨p, outcome, w₁, hp, hreporting, hexecute⟩
  · cases h.symm.trans hexecute
  · obtain ⟨houtcome, rfl⟩ := Prod.mk.inj (hexecute.symm.trans h)
    obtain ⟨n, rfl, hn⟩ := Except.map_eq_ok_iff.mp houtcome
    cases hn
    have hpatch : perform (patch p table isStrict) w = (.ok 0, w₁) := of_reporting_eq_zero hreporting
    have hcourse := patchCourse p table isStrict w
    rw [hpatch] at hcourse
    cases hcourse with
    | @patched t s r q _ _ hsurvey hmet hload hfile hsummary =>
      have ht := PatchTable.wellFormed_of_load hload
      -- the summary was shown, so the patch went through to its end
      cases hrender : renderSummary r p with
      | error e =>
        obtain ⟨w₂, hprint, -⟩ := perform_printSummary_of_error hrender q.world
        cases hsummary.symm.trans hprint
      | ok summary =>
        obtain ⟨shown, line⟩ := summary
        cases hsummary.symm.trans (perform_printSummary_of_ok hrender q.world)
        obtain ⟨notices, htrace⟩ := trace_of_patchFile hfile
        obtain ⟨content, -, hrewritten⟩ := rewritten_of_patchFile hfile
        let w' : World := { q.world with trace := q.world.trace ++ [.tabulated shown, .printed line] }
        replace htrace : w'.trace =
            w.trace ++ notices.map .noticed ++ [.tabulated shown, .printed line] := by
          rw [← htrace]
        have hfiles : w'.files = q.world.files := rfl
        -- what remains to be told is the survey after the patch, on the file it has written
        obtain ⟨s', r', hschema, hcoverage, hdone, hmissing⟩ := survey_after_patchFile ht hfile hfiles
        have hcheck := perform_check_of_ok hsurvey (renderSummary_eq_ok_iff.mp hrender).1 isStrict
        rw [if_neg fun h => (drift_iff.mp h).2 (hmet (drift_iff.mp h).1)] at hcheck
        refine .intro hp hload hsurvey (perform_execute hdry hp (perform_reporting_of_ok hcheck))
          htrace hschema hcoverage hdone hmissing fun hother => ?_
        rw [← hfiles] at hrewritten
        exact perform_survey_eq_ok_iff.mpr ⟨t, s',
          PatchTable.perform_load_of_rewritten hrewritten hother hload, hschema, hcoverage, rfl⟩

/-- A check that ends with the exit status one has a foreseen fault, or something is missing; then the patch
has a foreseen fault as well, and nothing has changed. -/
theorem patch_fails_of_check (h : perform (reporting (check p table isStrict)) w = (.ok 1, w')) :
    ∃ f, f.isForeseen = true ∧ perform (patch p table isStrict) w = (.error f, w) := by
  have hcourse := patchCourse p table isStrict w
  rcases hpatch : perform (patch p table isStrict) w with ⟨outcome, w₁⟩
  rw [hpatch] at hcourse
  rcases (keeps_survey p table).perform_cases w with ⟨f, hsurvey⟩ | ⟨r, hsurvey⟩
  · -- both have the fault of the survey
    have hcheck : perform (check p table isStrict) w = (.error f, w) := by
      rw [check_eq, perform_bind, hsurvey]
    cases hcourse with
    | unsurveyed hsurvey' =>
      cases hsurvey.symm.trans hsurvey'
      refine ⟨f, ?_, rfl⟩
      by_contra hf
      rw [Bool.not_eq_true] at hf
      cases h.symm.trans (perform_reporting_of_unforeseen hf hcheck)
    | drifted hsurvey' => cases hsurvey.symm.trans hsurvey'
    | unsaved hsurvey' => cases hsurvey.symm.trans hsurvey'
    | patched hsurvey' => cases hsurvey.symm.trans hsurvey'
  · -- the report is shown, and names are missing that must not be
    have hdrift : isStrict = true ∧ r.missing ≠ [] := by
      cases hshown : renderTable (reportTable r) with
      | error e =>
        have hcheck : perform (check p table isStrict) w = (.error (.markup e), w) := by
          rw [check_eq, perform_bind, hsurvey]
          dsimp only
          rw [perform_bind, perform_printTable_of_error hshown]
        cases h.symm.trans (perform_reporting_of_unforeseen rfl hcheck)
      | ok shown =>
        by_contra hnone
        have hcheck := perform_check_of_ok hsurvey hshown isStrict
        rw [if_neg fun h => hnone (drift_iff.mp h)] at hcheck
        cases h.symm.trans (perform_reporting_of_ok hcheck)
    cases hcourse with
    | unsurveyed hsurvey' => cases hsurvey.symm.trans hsurvey'
    | drifted hsurvey' =>
      cases hsurvey.symm.trans hsurvey'
      exact ⟨_, rfl, rfl⟩
    | unsaved hsurvey' hmet =>
      cases hsurvey.symm.trans hsurvey'
      exact absurd (hmet hdrift.1) hdrift.2
    | patched hsurvey' hmet =>
      cases hsurvey.symm.trans hsurvey'
      exact absurd (hmet hdrift.1) hdrift.2

/-- **A check predicts what a patch does.**  It changes no file.  When the patch ends with the exit status
zero, the check has predicted that; when the check ends with the exit status one, so does the patch, and it
changes no file. -/
theorem check_predicts_patch
    (hdry : request dry = some (.carryOut (.patch path table isStrict true)))
    (hreal : request real = some (.carryOut (.patch path table isStrict false))) (host : Host)
    (registry : Registry) (w : World) :
    (perform (execute host registry dry) w).2.files = w.files ∧
      (∀ w', perform (execute host registry real) w = (.ok (.status 0), w') →
        Predicted (execute host registry dry) path table w w') ∧
      ((perform (execute host registry dry) w).1 = .ok (.status 1) →
        (perform (execute host registry real) w).1 = .ok (.status 1) ∧
          (perform (execute host registry real) w).2.files = w.files) := by
  refine ⟨keeps_files_execute_check hdry host registry w, fun w' h => predicted hdry hreal h,
    fun h => ?_⟩
  rcases perform_execute_cases hdry host registry w with
    ⟨f, -, hexecute⟩ | ⟨p, outcome, w', hp, hreporting, hexecute⟩
  · rw [hexecute] at h
    cases h
  · rw [hexecute] at h
    obtain ⟨n, rfl, hn⟩ := Except.map_eq_ok_iff.mp h
    cases hn
    -- a check that ends with 1 has met a foreseen fault, which the patch meets as well
    obtain ⟨f, hf, hpatch⟩ := patch_fails_of_check hreporting
    obtain ⟨line, hline⟩ := perform_reporting_of_foreseen hf hpatch
    rw [perform_execute hreal hp hline]
    exact ⟨rfl, rfl⟩

end CommandLine

/-! ## A Schema That Is Its Own Table -/

namespace OwnTable

open CommandLine

/-- A character that ends a line in YAML; the canonical form of a schema does not escape it. -/
def nextLine : Text :=
  [.scalar '\u0085']

/-- The version and the instructions. -/
def front : List Char :=
  "\x7b\"version\":\"v\",\"instructions\":[\x7b\"name\":\"\\u0085\"\x7d,".toList ++
    "\x7b\"name\":\" \"\x7d],\"types\":[],".toList

/-- The rules, which name the first instruction. -/
def back : List Char :=
  "\"rules\":[\x7b\"matches\":[\"\\u0085\"],".toList ++
    "\"append\":\x7b\"name\":\"p\",\"type\":\"u8\"\x7d\x7d]\x7d".toList

/-- A file that holds a schema and a patch table at once. -/
def content : Bytes :=
  Utf8.encodeChars (front ++ back)

/-- The instructions in canonical form, when the first one has been patched. -/
def canonicalFront : List Char :=
  "\x7b\n  \"instructions\": [\n    \x7b\n      \"args\": [\n        \x7b\n".toList ++
    "          \"name\": \"p\",\n          \"type\": \"u8\"\n        \x7d\n      ],\n".toList ++
    "      \"name\": \"\u0085\"\n    \x7d,\n    \x7b\n      \"name\": \" \"\n    \x7d\n  ],\n".toList

/-- The rules and the version in canonical form. -/
def canonicalBack : List Char :=
  "  \"rules\": [\n    \x7b\n      \"append\": \x7b\n        \"name\": \"p\",\n".toList ++
    "        \"type\": \"u8\"\n      \x7d,\n      \"matches\": [\n        \"\u0085\"\n".toList ++
    "      ]\n    \x7d\n  ],\n  \"types\": [],\n  \"version\": \"v\"\n\x7d\n".toList

/-- The file when the schema has been patched. -/
def patchedContent : Bytes :=
  Utf8.encodeChars (canonicalFront ++ canonicalBack)

def argument : Json :=
  .object [("name", .text "p"), ("type", .text "u8")]

def rules : Json :=
  .list [.object [("matches", .list [.text nextLine]), ("append", argument)]]

/-- The document with the given first instruction. -/
def document (first : List (Text × Json)) : Json :=
  .object [("version", .text "v"), ("instructions", .list [.object first, .object [("name", .text " ")]]),
    ("types", .list []), ("rules", rules)]

/-- The schema with the given arguments of the first instruction. -/
def schema (args : Option (List Argument)) : Schema where
  version := some (some "v")
  instructions := [{ name := nextLine, args }, { name := " " }]
  types := []
  extra := [("rules", .ofJson rules)]

/-- The table for instructions of the given name. -/
def table (name : Text) : PatchTable where
  version := "v"
  rules := [{ names := [name], append := { name := "p", type := .named "u8" } }]

/-- A world of one file. -/
def world (content : Bytes) : World where
  files := { home := [], entries := [(["i"], .file content)] }

def path : Path :=
  ⟨.relative, ["i"]⟩

def dry : List Text :=
  ["patch", "--check", "--table", "i", "i"]

def real : List Text :=
  ["patch", "--table", "i", "i"]

/-! ### The Schema -/

set_option maxRecDepth 20000 in
theorem read_content : Json.read (front ++ back) = .ok (document [("name", .text nextLine)]) := by
  cbv

theorem ofBytes_content : Schema.ofBytes path.text content = .ok (schema none) := by
  have hlines : unifyNewlines (front ++ back) = front ++ back := by decide +kernel
  have hread : Json.ofBytes content = some (document [("name", .text nextLine)]) := by
    refine Json.ofBytes_eq_some_iff.mpr ⟨_, Utf8.decode_encodeChars _, ?_⟩
    rw [hlines, read_content]
  exact Schema.ofBytes_eq_ok_iff.mpr ⟨_, hread, rfl⟩

set_option maxRecDepth 20000 in
theorem canonical_patched :
    (document [("name", .text nextLine), ("args", .list [argument])]).canonical =
      Text.ofChars (canonicalFront ++ canonicalBack) := by
  cbv

theorem bytes_patched :
    ((table nextLine).patchedSchema (schema none)).bytes = .ok patchedContent := by
  have htext : ((table nextLine).patchedSchema (schema none)).canonical =
      .ok (Text.ofChars (canonicalFront ++ canonicalBack)) :=
    Schema.canonical_eq_ok_iff.mpr ⟨_, rfl, canonical_patched⟩
  exact Schema.bytes_eq_ok_iff.mpr ⟨_, htext, by decide +kernel⟩

/-! ### The Table -/

/-- Is it the table for instructions of the given name? -/
def isTable (name : Text) : PatchTable → Bool
  | ⟨version, none, [⟨[found], ⟨argument, .named type, []⟩, []⟩]⟩ =>
    version == "v" && found == name && argument == "p" && type == "u8"
  | _ => false

theorem eq_of_isTable {name : Text} {t : PatchTable} (h : isTable name t = true) : t = table name := by
  rw [isTable.eq_def] at h
  split at h
  · simp only [Bool.and_eq_true, beq_iff_eq] at h
    obtain ⟨⟨⟨rfl, rfl⟩, rfl⟩, rfl⟩ := h
    rfl
  · cases h

theorem load_of_isTable {name : Text} {w : World}
    (h : (perform (PatchTable.load (some "i")) w).1.toOption.any (isTable name) = true) :
    perform (PatchTable.load (some "i")) w = (.ok (table name), w) := by
  rcases (PatchTable.keeps_load (some "i")).perform_cases w with ⟨f, hload⟩ | ⟨t, hload⟩
  · rw [hload] at h
    cases h
  · rw [hload] at h ⊢
    rw [eq_of_isTable h]

theorem load_content :
    perform (PatchTable.load (some "i")) (world content) = (.ok (table nextLine), world content) :=
  load_of_isTable (by decide +kernel)

/-- In the file that was patched, the name in the table has become a blank. -/
theorem load_patchedContent :
    perform (PatchTable.load (some "i")) (world patchedContent) =
      (.ok (table " "), world patchedContent) :=
  load_of_isTable (by decide +kernel)

/-! ### The Patch -/

theorem conflict?_table : (table nextLine).conflict? = none := by
  decide

theorem shownPlainly_content : ShownPlainly (table nextLine) (schema none) path where
  version := by decide
  names := by decide
  types := by
    intro rule hrule name hname
    rw [List.mem_singleton.mp hrule] at hname
    cases hname
  instructions := by decide
  path := by decide

/-- The patch leaves the canonical text in the file, and its summary can be shown. -/
theorem patchFile_content :
    ∃ r q shown, perform ((table nextLine).patchFile true path) { world := world content } =
        (.ok ((table nextLine).patchedSchema (schema none), r), q) ∧
      FileTree.Rewritten path patchedContent (world content).files q.world.files ∧
      renderSummary r path = .ok shown := by
  have hshows : (table nextLine).Shows (schema none) :=
    PatchTable.shows_of_documented (Schema.documented_of_ofBytes ofBytes_content) fun _ _ rule hrule =>
      (by decide : ∀ rule ∈ (table nextLine).rules, rule.append.type.isPrintable = true) rule
        (PatchTable.mem_rules_of_rule? hrule)
  obtain ⟨q, hpatch⟩ : ∃ q, perform ((table nextLine).patchFile true path)
      { world := world content } =
        (.ok ((table nextLine).patchedSchema (schema none), (table nextLine).reportOn (schema none)), q) :=
    PatchTable.exists_patchFile conflict?_table rfl ofBytes_content (fun _ => by decide) hshows
      bytes_patched rfl
  -- the file was rewritten with the bytes of the patched schema
  obtain ⟨content', hbytes, hrewritten⟩ := rewritten_of_patchFile hpatch
  cases bytes_patched.symm.trans hbytes
  obtain ⟨shown, hshown⟩ := shownPlainly_content.exists_renderSummary conflict?_table
    (PatchTable.coverage_eq_reportOn conflict?_table (schema none))
  exact ⟨_, q, shown, hpatch, hrewritten, hshown⟩

/-- The command ends with the exit status zero, and leaves the canonical text in the file. -/
theorem execute_content (hreal : request real = some (.carryOut (.patch "i" (some "i") true false))) :
    ∃ w', perform (execute Sample.host .builtin real) (world content) = (.ok (.status 0), w') ∧
      FileTree.Rewritten path patchedContent (world content).files w'.files := by
  obtain ⟨r, q, ⟨shown, line⟩, hpatch, hrewritten, hshown⟩ := patchFile_content
  have hbody : perform (patchOrCheck path (some "i") true false) (world content) = _ :=
    (perform_patch_of_patchFile load_content hpatch).trans (perform_printSummary_of_ok hshown q.world)
  exact ⟨_, perform_execute hreal rfl (perform_reporting_of_ok hbody), hrewritten⟩

/-- In the file that was patched, the other instruction is one to patch. -/
theorem survey_patchedContent {w : World}
    (h : FileTree.Rewritten path patchedContent (world content).files w.files) :
    ∃ r, perform (survey path (some "i")) w = (.ok r, w) ∧ r.patched = [Text.ofString " "] := by
  have hbefore : (world content).files.find path = .ok (.taken ["i"] (.file content)) := rfl
  have hafter : (world patchedContent).files.find path =
      .ok (.taken ["i"] (.file patchedContent)) := rfl
  obtain ⟨l, old, hfind, hfind', -⟩ := h.location
  cases hbefore.symm.trans hfind
  -- one file is both the schema and the table
  have hload : perform (PatchTable.load (some "i")) w = (.ok (table " "), w) :=
    PatchTable.perform_load_congr (p := path) rfl (hfind'.trans hafter.symm) h.access
      load_patchedContent
  obtain ⟨text, htext, hencode⟩ := Schema.bytes_eq_ok_iff.mp bytes_patched
  have hwellFormed := (PatchTable.wellFormed_of_load load_content).patchedSchema
    (Schema.wellFormed_of_ofBytes ofBytes_content)
  obtain ⟨s, hs, -, hordered⟩ := Schema.ofBytes_of_bytes hwellFormed htext hencode path.text
  have hschema := Schema.perform_load_eq_ok_iff.mpr ⟨⟨_, h.read rfl, hs⟩, rfl⟩
  refine ⟨_, perform_survey_eq_ok_iff.mpr
    ⟨_, s, hload, hschema, PatchTable.coverage_eq (by decide) s, rfl⟩, ?_⟩
  dsimp only
  rw [PatchTable.namesOf_isLacking_eq, (Schema.outline_eq_of_ordered hordered).1]
  decide

theorem request_dry : request dry = some (.carryOut (.patch "i" (some "i") true true)) := by
  decide

theorem request_real : request real = some (.carryOut (.patch "i" (some "i") true false)) := by
  decide

/-- After the patch, a check that reads the table again finds an instruction to patch. -/
theorem left_to_patch :
    request real = some (.carryOut (.patch "i" (some "i") true false)) ∧
      perform (argumentPath "i") (world content) = (.ok path, world content) ∧
      ∃ w' r, perform (execute Sample.host .builtin real) (world content) = (.ok (.status 0), w') ∧
        perform (survey path (some "i")) w' = (.ok r, w') ∧ r.patched = [Text.ofString " "] := by
  obtain ⟨w', hexecute, hrewritten⟩ := execute_content request_real
  obtain ⟨r, hsurvey, hpatched⟩ := survey_patchedContent hrewritten
  exact ⟨request_real, rfl, w', r, hexecute, hsurvey, hpatched⟩

/-- With the table that was used, nothing is left to patch. -/
theorem patch_predicted :
    request dry = some (.carryOut (.patch "i" (some "i") true true)) ∧
      request real = some (.carryOut (.patch "i" (some "i") true false)) ∧
      ∃ w', Predicted (execute Sample.host .builtin dry) "i" (some "i") (world content) w' := by
  obtain ⟨w', hexecute, -⟩ := execute_content request_real
  exact ⟨request_dry, request_real, w',
    (check_predicts_patch request_dry request_real Sample.host .builtin (world content)).2.1 w' hexecute⟩

end OwnTable

end SchemaGraft
