import SchemaGraft.Proofs.Patch.Table

/-!
# Ambiguous Tables

A table is refused when two of its rules list one name.  The check goes through the names and looks-up goes
through the rules, but both come to the same: a table can be made exactly when no look-up in it is ambiguous.

## Architecture

- **Places**: `PatchTable.Lists` says that the rule at a place lists a name; `PatchTable.mem_claimants` and
  `PatchTable.sorted_claimants`.
- **Sharing**: `PatchTable.Unshared`; a name is listed once exactly when at most one rule claims it.
- **Look-up**: `PatchTable.ruleFor_eq_some_iff`, `PatchTable.ruleFor_eq_none_iff` and
  `PatchTable.exists_ruleFor_iff`, for every table.
- **Conflicts**: `PatchTable.FirstShared`, with `PatchTable.conflict?_eq_some_iff`.
- **Main result**: `PatchTable.made_iff_never_ambiguous`.
-/

namespace SchemaGraft

namespace PatchTable

variable {t : PatchTable} {name : Text}

/-! ## Places -/

/-- The rule at the place lists the name, be it as an expected one or as an alias. -/
def Lists (t : PatchTable) (place : ℕ) (name : Text) : Prop :=
  ∃ r, t.rules[place]? = some r ∧ (name ∈ r.names ∨ name ∈ r.aliases)

theorem mem_claimants_go {k i : ℕ} {rules : List PatchRule} :
    i ∈ claimants.go name k rules ↔
      ∃ j r, i = k + j ∧ rules[j]? = some r ∧ (name ∈ r.names ∨ name ∈ r.aliases) := by
  induction rules generalizing k with
  | nil => simp [claimants.go]
  | cons r rest ih =>
    -- the first place is that of `r`, the others are those of the rest
    have hsplit : (∃ j s, i = k + j ∧ (r :: rest)[j]? = some s ∧ (name ∈ s.names ∨ name ∈ s.aliases)) ↔
        (i = k ∧ r.claims name = true) ∨ i ∈ claimants.go name (k + 1) rest := by
      rw [ih, PatchRule.claims_iff]
      constructor
      · rintro ⟨j, s, hi, hs, hname⟩
        cases j with
        | zero =>
          cases hs
          exact .inl ⟨hi, hname⟩
        | succ j => exact .inr ⟨j, s, by omega, hs, hname⟩
      · rintro (⟨hi, hname⟩ | ⟨j, s, hi, hs, hname⟩)
        · exact ⟨0, r, hi, rfl, hname⟩
        · exact ⟨j + 1, s, by omega, hs, hname⟩
    rw [hsplit, claimants.go]
    split
    · next h => simp [h]
    · next h => simp [h]

/-- The claimants of a name are the places of the rules that list it. -/
theorem mem_claimants {i : ℕ} : i ∈ t.claimants name ↔ t.Lists i name := by
  rw [claimants, mem_claimants_go, Lists]
  simp

theorem sorted_claimants (t : PatchTable) (name : Text) : (t.claimants name).Pairwise (· < ·) := by
  -- on the rules, with the place of the first one
  have hrules (k : ℕ) (rules : List PatchRule) : (claimants.go name k rules).Pairwise (· < ·) := by
    induction rules generalizing k with
    | nil => exact .nil
    | cons r rest ih =>
      rw [claimants.go]
      split
      · refine List.pairwise_cons.mpr ⟨fun i hi => ?_, ih (k + 1)⟩
        obtain ⟨j, -, rfl, -⟩ := mem_claimants_go.mp hi
        omega
      · exact ih (k + 1)
  exact hrules 0 t.rules

/-! ## Sharing -/

/-- At most one rule lists the name. -/
def ListedOnce (t : PatchTable) (name : Text) : Prop :=
  ∀ i j, t.Lists i name → t.Lists j name → i = j

/-- No name is listed by two different rules. -/
def Unshared (t : PatchTable) : Prop :=
  ∀ name, t.ListedOnce name

theorem claimants_length_le_one_iff : (t.claimants name).length ≤ 1 ↔ t.ListedOnce name := by
  have hsorted := t.sorted_claimants name
  unfold ListedOnce
  simp only [← mem_claimants]
  -- two places in order are different ones
  rcases h : t.claimants name with _ | ⟨i, _ | ⟨j, rest⟩⟩
  · simp
  · simp
  · rw [h, List.pairwise_cons] at hsorted
    have hlt := hsorted.1 j (by simp)
    simp only [List.length_cons]
    refine iff_of_false (by omega) fun hsame => ?_
    have heq := hsame i j (by simp) (by simp)
    omega

/-- A table without a conflict shares no name. -/
theorem conflict?_eq_none_iff_unshared : t.conflict? = none ↔ t.Unshared := by
  rw [conflict?_eq_none_iff]
  refine forall_congr' fun name => ?_
  rw [← claimants_length, claimants_length_le_one_iff]

/-! ## Look-Up -/

theorem filter_claims_length_le_one_iff :
    (t.rules.filter (·.claims name)).length ≤ 1 ↔ t.ListedOnce name := by
  rw [← claimants_length, claimants_length_le_one_iff]

/-- What look-up answers is told by the list of the rules that match the name. -/
theorem ruleFor_iff_filter (t : PatchTable) (name : Text) :
    (t.ruleFor name = .ok none ↔ t.rules.filter (·.claims name) = []) ∧
      (∀ r, t.ruleFor name = .ok (some r) ↔ t.rules.filter (·.claims name) = [r]) ∧
      ((∃ rule?, t.ruleFor name = .ok rule?) ↔ (t.rules.filter (·.claims name)).length ≤ 1) := by
  unfold ruleFor
  rcases h : t.rules.filter (·.claims name) with _ | ⟨r, _ | ⟨s, rest⟩⟩
  · simp [h]
  · simp [h]
  · simp [h]

/-- Look-up is not ambiguous exactly when at most one rule lists the name. -/
theorem exists_ruleFor_iff : (∃ rule?, t.ruleFor name = .ok rule?) ↔ t.ListedOnce name :=
  (t.ruleFor_iff_filter name).2.2.trans filter_claims_length_le_one_iff

/-- Look-up gives a rule exactly when it is the only one that lists the name. -/
theorem ruleFor_eq_some_iff {r : PatchRule} :
    t.ruleFor name = .ok (some r) ↔ ∃ i, t.rules[i]? = some r ∧ ∀ j, t.Lists j name ↔ j = i := by
  constructor
  · intro h
    have honce := exists_ruleFor_iff.mp ⟨_, h⟩
    have hmem : r ∈ t.rules.filter (·.claims name) := by
      rw [((t.ruleFor_iff_filter name).2.1 r).mp h]
      exact List.mem_singleton_self r
    obtain ⟨hr, hclaims⟩ := List.mem_filter.mp hmem
    obtain ⟨i, hi⟩ := List.mem_iff_getElem?.mp hr
    have hlists : t.Lists i name := ⟨r, hi, PatchRule.claims_iff.mp hclaims⟩
    exact ⟨i, hi, fun j => ⟨fun hj => honce j i hj hlists, fun hj => hj ▸ hlists⟩⟩
  · rintro ⟨i, hi, honly⟩
    -- a rule that alone lists the name is the only one found
    have hlength := filter_claims_length_le_one_iff.mpr
      fun j k hj hk => ((honly j).mp hj).trans ((honly k).mp hk).symm
    obtain ⟨s, hs, hname⟩ := (honly i).mpr rfl
    cases hi.symm.trans hs
    have hmem : r ∈ t.rules.filter (·.claims name) :=
      List.mem_filter.mpr ⟨List.mem_of_getElem? hi, PatchRule.claims_iff.mpr hname⟩
    rw [(t.ruleFor_iff_filter name).2.1 r]
    obtain ⟨s, hs⟩ := List.length_eq_one_iff.mp (hlength.antisymm (List.length_pos_of_mem hmem))
    rw [hs, List.mem_singleton] at hmem
    rw [hs, hmem]

/-- Look-up gives none exactly when no rule lists the name. -/
theorem ruleFor_eq_none_iff : t.ruleFor name = .ok none ↔ ∀ i, ¬t.Lists i name := by
  rw [(t.ruleFor_iff_filter name).1, ← List.length_eq_zero_iff, ← claimants_length,
    List.length_eq_zero_iff, List.eq_nil_iff_forall_not_mem]
  exact forall_congr' fun i => not_congr mem_claimants

/-! ## Conflicts -/

/-- The first name that several rules list, and the places of all of them. -/
structure FirstShared (t : PatchTable) (a : Ambiguity) : Prop where
  /-- Several rules list the name. -/
  shared : ¬t.ListedOnce a.name
  /-- No name that is read before it is listed by several rules. -/
  first : ∃ before after, t.rules.flatMap (fun r => r.names ++ r.aliases) = before ++ a.name :: after ∧
    ∀ n ∈ before, t.ListedOnce n
  /-- The places are given in order, each once. -/
  sorted : a.rules.Pairwise (· < ·)
  /-- They are those of all rules that list the name. -/
  places (i : ℕ) : i ∈ a.rules ↔ t.Lists i a.name

/-- A conflict is the first name that is shared. -/
theorem conflict?_eq_some_iff {a : Ambiguity} : t.conflict? = some a ↔ t.FirstShared a := by
  rw [conflict?_eq, List.findSome?_eq_some_iff]
  constructor
  · rintro ⟨before, n, after, hnames, hfound, hbefore⟩
    split at hfound
    · next hmany =>
      cases hfound
      refine ⟨?_, ⟨before, after, hnames, fun m hm => ?_⟩, t.sorted_claimants n, fun i => mem_claimants⟩
      · rw [← claimants_length_le_one_iff]
        exact not_le.mpr hmany
      · rw [← claimants_length_le_one_iff]
        by_contra hlength
        have hnone := hbefore m hm
        rw [if_pos (by omega)] at hnone
        cases hnone
    · cases hfound
  · rintro ⟨hshared, ⟨before, after, hnames, hbefore⟩, hsorted, hplaces⟩
    rw [← claimants_length_le_one_iff, not_le] at hshared
    -- two increasing lists of the same places are the same
    have hrules : t.claimants a.name = a.rules :=
      (t.sorted_claimants a.name).eq_of_mem_iff hsorted fun i => by rw [mem_claimants, hplaces]
    refine ⟨before, a.name, after, hnames, ?_, fun n hn => ?_⟩
    · rw [if_pos hshared, hrules]
    · rw [if_neg (Nat.not_lt.mpr (claimants_length_le_one_iff.mpr (hbefore n hn)))]

/-! ## Main Result -/

/-- Look-up gives the only rule that lists the name, or none if no rule lists it. -/
def FindsOnly (t : PatchTable) (name : Text) : Prop :=
  (t.ruleFor name = .ok none ∧ ∀ i, ¬t.Lists i name) ∨
    ∃ i r, t.ruleFor name = .ok (some r) ∧ t.rules[i]? = some r ∧ ∀ j, t.Lists j name ↔ j = i

theorem Unshared.findsOnly (h : t.Unshared) (name : Text) : t.FindsOnly name := by
  obtain ⟨rule?, hrule⟩ := exists_ruleFor_iff.mpr (h name)
  cases rule? with
  | none => exact .inl ⟨hrule, ruleFor_eq_none_iff.mp hrule⟩
  | some r =>
    obtain ⟨i, hi, honly⟩ := ruleFor_eq_some_iff.mp hrule
    exact .inr ⟨i, r, hrule, hi, honly⟩

/-- Of rules that are well formed, a table is made unless two of them share a name. -/
theorem ofValue_eq_of_check {v : Value} (hcheck : check v = .ok t) :
    (t.Unshared ∧ ofValue v = .ok t) ∨
      ¬t.Unshared ∧ ∃ a, ofValue v = .error (.ambiguous a) ∧ t.FirstShared a := by
  rw [ofValue, hcheck, ← conflict?_eq_none_iff_unshared]
  dsimp only
  cases hconflict : t.conflict? with
  | none => exact .inl ⟨rfl, rfl⟩
  | some a => exact .inr ⟨nofun, a, rfl, conflict?_eq_some_iff.mp hconflict⟩

/-- **A table can be made of well-formed rules exactly when look-up is never ambiguous**, which is when no
name is listed by two different rules.  Look-up in a table that was made finds the only rule that lists a
name.  If no table can be made, the first name that several rules list is reported, with the places of all of
them. -/
theorem made_iff_never_ambiguous {v : Value} (hcheck : check v = .ok t) :
    ((∃ made, ofValue v = .ok made) ↔ t.Unshared) ∧
      (t.Unshared ↔ ∀ name, ∃ rule?, t.ruleFor name = .ok rule?) ∧
      (∀ made, ofValue v = .ok made → made = t ∧ ∀ name, made.FindsOnly name) ∧
      ((¬∃ made, ofValue v = .ok made) →
        ∃ a, ofValue v = .error (.ambiguous a) ∧ t.FirstShared a) := by
  have hlookup : t.Unshared ↔ ∀ name, ∃ rule?, t.ruleFor name = .ok rule? :=
    forall_congr' fun name => exists_ruleFor_iff.symm
  -- a checked table is made as it is, or refused for the first name that two rules share
  rcases ofValue_eq_of_check hcheck with ⟨hunshared, hmade⟩ | ⟨hshared, a, hrefused, hfirst⟩
  · refine ⟨iff_of_true ⟨t, hmade⟩ hunshared, hlookup, fun made h => ?_, fun h => absurd ⟨t, hmade⟩ h⟩
    cases hmade.symm.trans h
    exact ⟨rfl, hunshared.findsOnly⟩
  · have hnone : ¬∃ made, ofValue v = .ok made := by
      rintro ⟨made, h⟩
      cases hrefused.symm.trans h
    exact ⟨iff_of_false hnone hshared, hlookup, fun made h => absurd ⟨made, h⟩ hnone,
      fun _ => ⟨a, hrefused, hfirst⟩⟩

end PatchTable

/-! ## A Table That Cannot Be Made -/

namespace Contested

/-- The document of a rule that appends a number. -/
def ruleDocument (names aliases : List String) : Value :=
  .object [(.text "matches", .list (names.map fun n => .ofText n)),
    (.text "append", .object [(.text "name", .ofText "p"), (.text "type", .ofText "u8")]),
    (.text "aliases", .list (aliases.map fun n => .ofText n))]

/-- The document of a table whose rules list a name twice, and share two names. -/
def document : Value :=
  .object [(.text "version", .ofText "t"), (.text "rules", .list [
    ruleDocument ["A", "B", "A"] ["A"], ruleDocument ["C"] ["D"], ruleDocument ["D"] ["C", "B"],
    ruleDocument ["B"] []])]

/-- The table that the document describes. -/
def table : PatchTable where
  version := "t"
  rules := [
    PatchTable.rule ["A", "B", "A"] "p" (.named "u8") ["A"],
    PatchTable.rule ["C"] "p" (.named "u8") ["D"],
    PatchTable.rule ["D"] "p" (.named "u8") ["C", "B"],
    PatchTable.rule ["B"] "p" (.named "u8")]

/-- A name that one rule repeats is none of the shared ones; of these, `B` is read first. -/
theorem table_refused :
    PatchTable.check document = .ok table ∧
      PatchTable.ofValue document = .error (.ambiguous ⟨"B", [0, 2, 3]⟩) ∧
      table.FirstShared ⟨"B", [0, 2, 3]⟩ := by
  have hcheck : PatchTable.check document = .ok table := rfl
  have hrefused : PatchTable.ofValue document = .error (.ambiguous ⟨"B", [0, 2, 3]⟩) := rfl
  obtain ⟨-, -, -, hfirst⟩ := PatchTable.made_iff_never_ambiguous hcheck
  obtain ⟨a, ha, hshared⟩ := hfirst fun ⟨made, h⟩ => by cases hrefused.symm.trans h
  cases hrefused.symm.trans ha
  exact ⟨hcheck, hrefused, hshared⟩

end Contested

end SchemaGraft
