import SchemaGraft.Proofs.Patch.Stability

/-!
# Tables Made From Documents

A table that is made from a document is well formed.  All that is asked of the document is what every
reader grants: that no mapping repeats a key.

## Architecture

- **Documents**: `Value.Proper`, which says that no mapping in a value repeats a text as a key.
- **Arguments**: `Argument.wellFormed_of_check`.
- **Tables**: `PatchTable.wellFormed_of_ofValue`.
-/

namespace SchemaGraft

open Json (names)

/-! ## Documents -/

/-- The keys of a mapping that are texts. -/
def textKeys (ms : List (Scalar × Value)) : List Text :=
  ms.filterMap fun m =>
    match m.1 with
    | .text t => some t
    | _ => none

theorem mem_textKeys {n : Text} {ms : List (Scalar × Value)} :
    n ∈ textKeys ms ↔ ∃ m ∈ ms, m.1 = .text n := by
  rw [textKeys, List.mem_filterMap]
  refine exists_congr fun m => and_congr_right fun _ => ?_
  cases m.1 <;> simp

theorem textKeys_cons_text (t : Text) (v : Value) (ms : List (Scalar × Value)) :
    textKeys ((.text t, v) :: ms) = t :: textKeys ms := rfl

namespace Value

mutual

/-- No mapping in the value repeats a text as a key. -/
def Proper : Value → Prop
  | .list items => ProperItems items
  | .pair a b => Proper a ∧ Proper b
  | .object ms => (textKeys ms).Nodup ∧ ProperEntries ms
  | _ => True

/-- `Proper` for the items of a list. -/
def ProperItems : List Value → Prop
  | [] => True
  | v :: rest => Proper v ∧ ProperItems rest

/-- `Proper` for the values of entries. -/
def ProperEntries : List (Scalar × Value) → Prop
  | [] => True
  | (_, v) :: rest => Proper v ∧ ProperEntries rest

end

/-- A list is proper if its items are. -/
theorem properItems_iff {items : List Value} : ProperItems items ↔ ∀ v ∈ items, v.Proper := by
  induction items with
  | nil => simp [ProperItems]
  | cons v rest ih => rw [ProperItems, ih, List.forall_mem_cons]

/-- Entries are proper if their values are. -/
theorem properEntries_iff {ms : List (Scalar × Value)} :
    ProperEntries ms ↔ ∀ m ∈ ms, m.2.Proper := by
  induction ms with
  | nil => simp [ProperEntries]
  | cons m rest ih => rw [ProperEntries, ih, List.forall_mem_cons]

/-- The members of a proper mapping are proper. -/
theorem Proper.member? {ms : List (Scalar × Value)} (h : (Value.object ms).Proper) {name : String}
    {v : Value} (hv : Check.member? ms name = some v) : v.Proper := by
  rw [Proper, properEntries_iff] at h
  replace h := h.2
  rw [Check.member?] at hv
  -- on the members, along the lookup
  induction ms with
  | nil => cases hv
  | cons m rest ih =>
    obtain ⟨hm, hrest⟩ := List.forall_mem_cons.mp h
    obtain ⟨k, w⟩ := m
    rw [Scalar.lookup] at hv
    split at hv
    · cases hv
      exact hm
    · exact ih hv hrest

end Value

namespace Check

variable {α : Type}

theorem exists_of_required {ms : List (Scalar × Value)} {name : String} {check : Value → Checked α}
    {a : α} (h : required ms name check = .ok a) :
    ∃ v, member? ms name = some v ∧ check v = .ok a := by
  rw [required, Checked.under_eq_ok_iff] at h
  cases hv : member? ms name with
  | none => rw [hv] at h; cases h
  | some v => rw [hv] at h; exact ⟨v, rfl, h⟩

/-- What a sequence is checked to hold comes from the values in it. -/
theorem exists_of_sequence {otherwise : IssueKind} {check : Value → Checked α} {v : Value}
    (hv : v.Proper) {as : List α} (h : sequence otherwise check v = .ok as) {a : α} (ha : a ∈ as) :
    ∃ w : Value, w.Proper ∧ check w = .ok a := by
  -- the items of a list, the two parts of a pair and the members of a set are checked alike
  have heach {items : List Value} (hitems : ∀ w ∈ items, w.Proper)
      (h : Checked.each check items = .ok as) : ∃ w : Value, w.Proper ∧ check w = .ok a := by
    obtain ⟨w, hw, hcheck⟩ := (Checked.each_eq_ok_iff.mp h).exists_of_mem_right ha
    exact ⟨w, hitems w hw, hcheck⟩
  cases v with
  | list items => exact heach (Value.properItems_iff.mp hv) h
  | pair a b =>
    rw [Value.Proper] at hv
    exact heach (by simpa using hv) h
  | set members => exact heach (by simp [Value.Proper]) h
  | _ => cases h

/-- The members beyond the declared ones are entries of the record whose keys are texts. -/
theorem names_of_extras_go {ms : List (Scalar × Value)} {xs : List (Text × Value)}
    (h : extras.go ms = .ok xs) : names xs = textKeys ms := by
  -- on the members: a key that is no text is an issue
  induction ms generalizing xs with
  | nil => cases h; rfl
  | cons m rest ih =>
    obtain ⟨k, v⟩ := m
    cases k with
    | text t =>
      rw [extras.go] at h
      obtain ⟨r, hr, rfl⟩ := Except.map_eq_ok_iff.mp h
      obtain ⟨hname, hrest⟩ := Checked.both_eq_ok_iff.mp hr
      cases hname
      rw [textKeys_cons_text, Json.names_cons, ih hrest]
    | _ =>
      obtain ⟨r, hr, rfl⟩ := Except.map_eq_ok_iff.mp h
      cases (Checked.both_eq_ok_iff.mp hr).1

theorem encodable_of_hasLoneSurrogate {ms : List (Scalar × Value)}
    (h : ¬hasLoneSurrogate ms = true) : ∀ n ∈ textKeys ms, n.Encodable := by
  intro n hn
  obtain ⟨m, hm, hkey⟩ := mem_textKeys.mp hn
  rw [hasLoneSurrogate, List.any_eq_true] at h
  have hnone := not_exists.mp h m
  rw [hkey] at hnone
  simpa [Text.Encodable, hm] using hnone

end Check

/-! ## Arguments -/

/-- An argument that passes its check is well-formed, as the value it was read from is proper. -/
theorem Argument.wellFormed_of_check {v : Value} (hv : v.Proper) {a : Argument}
    (h : Argument.check v = .ok a) : a.WellFormed := by
  cases v with
  | object ms =>
    rw [Argument.check, Check.record, Except.ok_bind, Check.readable] at h
    split at h
    · cases h
    · next hencodable =>
      -- what is not declared are entries of the same mapping, so no name is repeated
      obtain ⟨⟨name, type, extra⟩, hparts, rfl⟩ := Except.map_eq_ok_iff.mp h
      obtain ⟨-, hparts⟩ := Checked.both_eq_ok_iff.mp hparts
      obtain ⟨-, hextra⟩ := Checked.both_eq_ok_iff.mp hparts
      have hnames := Check.names_of_extras_go hextra
      rw [Value.Proper] at hv
      refine ⟨trivial, trivial, ?_, fun n hn => ?_⟩
      · show (names extra).Nodup
        rw [hnames]
        exact hv.1.sublist (List.filter_sublist.filterMap _)
      · replace hn : n ∈ names extra := hn
        rw [hnames, mem_textKeys] at hn
        obtain ⟨m, hm, hkey⟩ := hn
        obtain ⟨hm, hdeclared⟩ := List.mem_filter.mp hm
        refine ⟨?_, Check.encodable_of_hasLoneSurrogate hencodable n (mem_textKeys.mpr ⟨m, hm, hkey⟩)⟩
        rw [hkey] at hdeclared
        simpa [Check.isDeclared] using hdeclared
  | _ => cases h

/-! ## Tables -/

/-- The argument of a rule that is made from a document is well formed. -/
theorem PatchRule.wellFormed_of_check {v : Value} (hv : v.Proper) {r : PatchRule}
    (h : PatchRule.check v = .ok r) : r.append.WellFormed := by
  cases v with
  | object ms =>
    rw [PatchRule.check, Check.record, Except.ok_bind] at h
    obtain ⟨⟨names, append, aliases⟩, hparts, rfl⟩ := Except.map_eq_ok_iff.mp h
    obtain ⟨-, hparts⟩ := Checked.both_eq_ok_iff.mp hparts
    obtain ⟨happend, -⟩ := Checked.both_eq_ok_iff.mp hparts
    obtain ⟨w, hw, hcheck⟩ := Check.exists_of_required happend
    exact Argument.wellFormed_of_check (hv.member? hw) hcheck
  | _ => cases h

/-- **Every table that is made from a document is well formed.** -/
theorem PatchTable.wellFormed_of_ofValue {v : Value} (hv : v.Proper) {t : PatchTable}
    (h : PatchTable.ofValue v = .ok t) : t.WellFormed := by
  rw [ofValue] at h
  split at h
  · cases h
  · next hcheck =>
    split at h
    · cases h
    · next hconflict =>
      cases h
      refine ⟨hconflict, fun r hr => ?_⟩
      cases v with
      | object ms =>
        rw [PatchTable.check, Check.record, Except.ok_bind] at hcheck
        -- of the three members only the rules have something to keep
        obtain ⟨⟨version, program, rules⟩, hparts, rfl⟩ := Except.map_eq_ok_iff.mp hcheck
        obtain ⟨-, hparts⟩ := Checked.both_eq_ok_iff.mp hparts
        obtain ⟨-, hrules⟩ := Checked.both_eq_ok_iff.mp hparts
        dsimp only at hrules hr
        rw [Check.possible] at hrules
        split at hrules
        · next w hw =>
          obtain ⟨rs, hrs, rfl⟩ := Except.map_eq_ok_iff.mp hrules
          obtain ⟨u, hu, hcheck⟩ :=
            Check.exists_of_sequence (hv.member? hw) (Checked.under_eq_ok_iff.mp hrs) hr
          exact PatchRule.wellFormed_of_check hu hcheck
        · cases hrules
          cases hr
      | _ => cases hcheck

end SchemaGraft
