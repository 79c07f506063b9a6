import SchemaGraft.Proofs.Patch.Ambiguity

/-!
# Places of Ambiguous Rules

When several rules match a name, look-up reports their places.  It does not know them: it looks for each rule
once more and reports where it finds an equal one.  The check of a table notes the places while it goes
through the rules.  Both agree on the names that are ambiguous, and on the places of a name exactly when no
two rules for it are equal.

## Architecture

- **Equal rules**: `PatchTable.EqualRules`; of equal rules all or none list a name.
- **Reported places**: `PatchTable.FirstEqual` describes one, and `PatchTable.ruleFor_eq_error_iff` all.
- **Noted places**: `PatchTable.mem_owners_iff`.
- **Main result**: `PatchTable.reported_places`.
-/

namespace SchemaGraft

/-- Equal rules have the same names. -/
theorem PatchRule.names_of_same {r s : PatchRule} (h : r.same s = true) :
    r.names = s.names ∧ r.aliases = s.aliases := by
  simp only [same, Bool.and_eq_true, beq_iff_eq] at h
  exact ⟨h.1.1, h.2⟩

namespace PatchTable

variable {t : PatchTable} {name : Text} {i place : ℕ}

/-! ## Equal Rules -/

/-- The rules at two places are equal. -/
def EqualRules (t : PatchTable) (i j : ℕ) : Prop :=
  ∃ r s, t.rules[i]? = some r ∧ t.rules[j]? = some s ∧ r.same s = true

theorem EqualRules.lists {j : ℕ} (h : t.EqualRules i j) (hj : t.Lists j name) : t.Lists i name := by
  obtain ⟨r, s, hr, hs, hsame⟩ := h
  obtain ⟨s', hs', hname⟩ := hj
  cases hs.symm.trans hs'
  obtain ⟨hnames, haliases⟩ := PatchRule.names_of_same hsame
  refine ⟨r, hr, ?_⟩
  rw [hnames, haliases]
  exact hname

/-! ## Reported Places -/

/-- The place is the first one of a rule that is equal to the rule at `i`, which counts itself. -/
structure FirstEqual (t : PatchTable) (i place : ℕ) : Prop where
  /-- The rule there is the rule at `i`, or an equal one in front of it. -/
  equal : place = i ∨ place < i ∧ t.EqualRules place i
  /-- No rule before the place is equal. -/
  first : ∀ j < place, ¬t.EqualRules j i

theorem firstEqual_firstLike {r : PatchRule} (hr : t.rules[i]? = some r) :
    t.FirstEqual i (t.firstLike i) := by
  have hplace : t.firstLike i = min i (t.rules.findIdx fun s => s.same r) := by
    simp only [firstLike, hr]
  rw [hplace]
  constructor
  · rcases Nat.lt_or_ge (t.rules.findIdx fun s => s.same r) i with hlt | hge
    · -- the search ends in front of the rule, so it has found another one
      have hlength : t.rules.findIdx (fun s => s.same r) < t.rules.length := by
        have hi := (List.getElem?_eq_some_iff.mp hr).1
        omega
      refine .inr ⟨by omega, _, r, List.getElem?_eq_getElem (by omega), hr, ?_⟩
      simp only [Nat.min_eq_right hlt.le]
      exact List.findIdx_getElem (w := hlength)
    · exact .inl (Nat.min_eq_left hge)
  · rintro j hj ⟨s, r', hs, hr', hsame⟩
    cases hr.symm.trans hr'
    obtain ⟨hlength, rfl⟩ := List.getElem?_eq_some_iff.mp hs
    have hnot := List.not_of_lt_findIdx (lt_of_lt_of_le hj (Nat.min_le_right _ _))
    exact absurd hsame (by simpa using hnot)

/-- A reported place is one of a rule that lists the name. -/
theorem FirstEqual.lists (h : t.FirstEqual i place) (hi : t.Lists i name) : t.Lists place name := by
  rcases h.equal with rfl | ⟨-, hequal⟩
  · exact hi
  · exact hequal.lists hi

/-- A rule is reported at its own place exactly when no equal rule stands before it. -/
theorem FirstEqual.eq_iff (h : t.FirstEqual i place) : place = i ↔ ∀ j < i, ¬t.EqualRules j i := by
  constructor
  · rintro rfl
    exact h.first
  · intro hnone
    rcases h.equal with heq | ⟨hlt, hequal⟩
    · exact heq
    · exact absurd hequal (hnone _ hlt)

/-- Look-up is ambiguous exactly for a name that several rules list, and reports one place for each. -/
theorem ruleFor_eq_error_iff {a : Ambiguity} :
    t.ruleFor name = .error a ↔
      ¬t.ListedOnce name ∧ a = ⟨name, (t.claimants name).map t.firstLike⟩ := by
  rw [← exists_ruleFor_iff]
  unfold ruleFor
  split
  · simp
  · simp
  · simp [eq_comm]

theorem forall₂_firstEqual (t : PatchTable) (name : Text) :
    List.Forall₂ t.FirstEqual (t.claimants name) ((t.claimants name).map t.firstLike) := by
  rw [List.forall₂_map_right_iff, List.forall₂_same]
  intro i hi
  obtain ⟨r, hr, -⟩ := mem_claimants.mp hi
  exact firstEqual_firstLike hr

/-- The reported places are those of the rules exactly when no two rules that list the name are equal. -/
theorem map_firstLike_eq_iff :
    (t.claimants name).map t.firstLike = t.claimants name ↔
      ∀ i j, i < j → t.Lists i name → t.Lists j name → ¬t.EqualRules i j := by
  have hplaces (j : ℕ) (hj : t.Lists j name) :
      t.firstLike j = j ↔ ∀ i < j, ¬t.EqualRules i j := by
    obtain ⟨r, hr, -⟩ := hj
    exact (firstEqual_firstLike hr).eq_iff
  constructor
  · intro h i j hij _ hj
    have hsame : t.firstLike j = j :=
      List.map_inj_left.mp (h.trans (List.map_id _).symm) j (mem_claimants.mpr hj)
    exact (hplaces j hj).mp hsame i hij
  · intro h
    refine (List.map_congr_left fun j hj => ?_).trans (List.map_id _)
    have hlists := mem_claimants.mp hj
    -- an equal rule would list the name as well
    exact (hplaces j hlists).mpr fun i hij hequal => h i j hij (hequal.lists hlists) hlists hequal

/-- Reported places that increase are the places of the rules. -/
theorem sorted_map_firstLike_iff :
    ((t.claimants name).map t.firstLike).Pairwise (· < ·) ↔
      (t.claimants name).map t.firstLike = t.claimants name := by
  constructor
  · intro hsorted
    have hsubset : (t.claimants name).map t.firstLike ⊆ t.claimants name := by
      intro place hplace
      obtain ⟨i, hi, rfl⟩ := List.mem_map.mp hplace
      obtain ⟨r, hr, hname⟩ := mem_claimants.mp hi
      exact mem_claimants.mpr ((firstEqual_firstLike hr).lists ⟨r, hr, hname⟩)
    -- as many different places among them are all of them
    have hnodup := hsorted.imp fun h => Nat.ne_of_lt h
    have hperm := (List.subperm_of_subset hnodup hsubset).perm_of_length_le (by simp)
    exact hsorted.eq_of_mem_iff (t.sorted_claimants name) fun i => hperm.mem_iff
  · intro h
    rw [h]
    exact t.sorted_claimants name

/-! ## Noted Places -/

/-- What the check of a table notes for a name: the places of the rules that list it, if there are any. -/
theorem mem_owners_iff {noted : List ℕ} :
    (name, noted) ∈ t.owners ↔ (∃ i, t.Lists i name) ∧ noted = t.claimants name := by
  -- the names that are noted are those that some rule lists
  have hname : name ∈ t.rules.flatMap (·.allNames) ↔ ∃ i, t.Lists i name := by
    simp only [List.mem_flatMap, Lists, PatchRule.allNames, List.mem_append]
    constructor
    · rintro ⟨r, hr, hname⟩
      obtain ⟨i, hi⟩ := List.mem_iff_getElem?.mp hr
      exact ⟨i, r, hi, hname⟩
    · rintro ⟨i, r, hi, hname⟩
      exact ⟨r, List.mem_of_getElem? hi, hname⟩
  rw [owners_eq, List.mem_map, ← hname]
  simp only [List.mem_eraseDups, Prod.mk.injEq]
  constructor
  · rintro ⟨n, hn, rfl, rfl⟩
    exact ⟨hn, rfl⟩
  · rintro ⟨hn, rfl⟩
    exact ⟨name, hn, rfl, rfl⟩

/-! ## Main Result -/

/-- **The places that look-up reports.**  In every table, look-up is ambiguous exactly for the names that two
rules list.  It then reports for each of the rules the place of the first rule that is equal to it.  The check
of a table notes the increasing list of the places themselves; look-up reports the same list exactly when no
two of the rules are equal, and a list that does not increase otherwise. -/
theorem reported_places (t : PatchTable) (name : Text) :
    ((∃ a, t.ruleFor name = .error a) ↔ ∃ i j, i ≠ j ∧ t.Lists i name ∧ t.Lists j name) ∧
      ∀ a, t.ruleFor name = .error a →
        a.name = name ∧
          ∃ noted, (∀ places, (name, places) ∈ t.owners ↔ places = noted) ∧
            noted.Pairwise (· < ·) ∧ (∀ i, i ∈ noted ↔ t.Lists i name) ∧
            List.Forall₂ t.FirstEqual noted a.rules ∧
            (a.rules = noted ↔ ∀ i j, i < j → t.Lists i name → t.Lists j name → ¬t.EqualRules i j) ∧
            (a.rules.Pairwise (· < ·) ↔ a.rules = noted) := by
  have hambiguous : (∃ a, t.ruleFor name = .error a) ↔ ¬t.ListedOnce name := by
    simp only [ruleFor_eq_error_iff]
    exact ⟨fun ⟨_, h, _⟩ => h, fun h => ⟨_, h, rfl⟩⟩
  refine ⟨?_, fun a ha => ?_⟩
  · rw [hambiguous]
    simp only [ListedOnce, not_forall]
    constructor
    · rintro ⟨i, j, hi, hj, hne⟩
      exact ⟨i, j, hne, hi, hj⟩
    · rintro ⟨i, j, hne, hi, hj⟩
      exact ⟨i, j, hi, hj, hne⟩
  · obtain ⟨hshared, rfl⟩ := ruleFor_eq_error_iff.mp ha
    -- a name that is shared is listed
    have hlisted : ∃ i, t.Lists i name := by
      by_contra hnone
      exact hshared fun i j hi _ => absurd ⟨i, hi⟩ hnone
    exact ⟨rfl, t.claimants name, fun places => mem_owners_iff.trans (and_iff_right hlisted),
      t.sorted_claimants name, fun i => mem_claimants, t.forall₂_firstEqual name, map_firstLike_eq_iff,
      sorted_map_firstLike_iff⟩

end PatchTable

/-! ## Equal Rules in a Table -/

namespace Twins

/-- A table in which one rule stands twice, with another one for the same name behind each. -/
def table : PatchTable where
  version := "t"
  rules := [
    PatchTable.rule ["A"] "p" (.named "u8"), PatchTable.rule ["A", "B"] "p" (.named "u8"),
    PatchTable.rule ["A"] "p" (.named "u8"), PatchTable.rule ["A"] "q" (.named "u8")]

/-- Four rules list the name.  The first and the third of them are equal, so look-up reports the first one
twice, where the check of the table tells them apart. -/
theorem reported_twice :
    table.ruleFor "A" = .error ⟨"A", [0, 1, 0, 3]⟩ ∧
      table.conflict? = some ⟨"A", [0, 1, 2, 3]⟩ ∧
      ¬([0, 1, 0, 3] : List ℕ).Pairwise (· < ·) ∧ table.EqualRules 0 2 := by
  have hambiguous : table.ruleFor "A" = .error ⟨"A", [0, 1, 0, 3]⟩ := rfl
  have hconflict : table.conflict? = some ⟨"A", [0, 1, 2, 3]⟩ := rfl
  obtain ⟨-, hplaces⟩ := PatchTable.reported_places table "A"
  obtain ⟨-, noted, -, -, -, -, hsame, hsorted⟩ := hplaces _ hambiguous
  have hequal : table.EqualRules 0 2 := ⟨_, _, rfl, rfl, rfl⟩
  refine ⟨hambiguous, hconflict, fun h => ?_, hequal⟩
  exact hsame.mp (hsorted.mp h) 0 2 (by decide) ⟨_, rfl, by decide⟩ ⟨_, rfl, by decide⟩ hequal

end Twins

end SchemaGraft
