import SchemaGraft.Config.Basic
import SchemaGraft.Proofs.Text.Decoding
import SchemaGraft.Proofs.Validation.Checks
import SchemaGraft.Proofs.Validation.Integers

/-!
# Shapes of Settings

What a setting of a configuration can hold, which values are taken for it, and which places of the other values
do not fit.

## Architecture

- **Values**: `Value.Spells`, `Value.Means` and `Value.Lists` say which values count as texts, truth values and
  lists.
- **Outcomes**: `Checked.Meets` says of a check what it gives and which issues it finds, with one lemma for each
  way to join checks.
- **Checks of values**: `Check.text_eq_ok_iff_spells`, `Check.bool_eq_ok_iff`, and `Checked.meets_each_text` for
  the items of a list.
- **Shapes**: `Config.Shape`, with `Reads` for the values that fit and `Misses` for the places of the others.
- **Main result**: `Config.Shape.meets_check`.
-/

namespace SchemaGraft

/-! ## Values -/

/-- The value counts as a text: it is one, or its bytes are one in UTF-8. -/
inductive Value.Spells : Value → Text → Prop
  | text (t : Text) : Spells (.scalar (.text t)) t
  | bytes (cs : List Char) : Spells (.scalar (.bytes (Utf8.encodeChars cs))) (Text.ofChars cs)

/-- The words for a truth value. -/
def flagWords : Bool → List Text
  | true => ["true", "t", "yes", "y", "on", "1"]
  | false => ["false", "f", "no", "n", "off", "0"]

/-- The value counts as a truth value: it is one, or a word for it in any case of its letters, or the number one
or zero. -/
inductive Value.Means (b : Bool) : Value → Prop
  | bool : Means b (.scalar (.bool b))
  | word {v : Value} {t : Text} (h : v.Spells t) (hword : t.toLowerAscii ∈ flagWords b) : Means b v
  | int : Means b (.scalar (.int (if b then 1 else 0)))
  | float {x : Binary64} (h : x.toInt? = some (if b then 1 else 0)) : Means b (.scalar (.float x))

/-- The value counts as a list: it is one, a pair, or a set, whose members have no order of their own. -/
inductive Value.Lists : Value → List Value → Prop
  | list (items : List Value) : Lists (.list items) items
  | pair (a b : Value) : Lists (.pair a b) [a, b]
  | set {members : List Scalar} {items : List Value} (h : items.Perm (members.map .scalar)) :
    Lists (.set members) items

/-! ## Outcomes of Checks -/

/-- The issue as it is seen from one step further out. -/
def Issue.within (step : Step) (i : Issue) : Issue :=
  { i with place := step :: i.place }

/-- Issues that are put one step further inside keep the rest of their places. -/
@[simp]
theorem map_place_within (step : Step) (is : List Issue) :
    (is.map (Issue.within step)).map (·.place) = (is.map (·.place)).map (step :: ·) := by
  simp [Issue.within]

namespace Checked

variable {α β : Type} {x : Checked α} {y : Checked β} {P P' : α → Prop} {R : β → Prop}
  {Q Q' S : List Issue → Prop}

/-- A check gives what has a property, without issues, or issues of a kind. -/
def Meets (x : Checked α) (P : α → Prop) (Q : List Issue → Prop) : Prop :=
  match x with
  | .ok a => P a ∧ Q []
  | .error issues => issues ≠ [] ∧ Q issues

/-- Weaker conditions are met as well. -/
theorem Meets.mono (h : x.Meets P Q) (hP : ∀ a, P a → P' a) (hQ : ∀ is, Q is → Q' is) :
    x.Meets P' Q' := by
  cases x with
  | ok a => exact ⟨hP a h.1, hQ _ h.2⟩
  | error issues => exact ⟨h.1, hQ _ h.2⟩

/-- What is made of the outcome has no part in the issues. -/
theorem Meets.map (h : x.Meets P Q) {f : α → β} (hf : ∀ a, P a → R (f a)) :
    Meets (x.map f) R Q := by
  cases x with
  | ok a => exact ⟨hf a h.1, h.2⟩
  | error issues => exact h

/-- The issues of a member are those of its value, one step further inside. -/
theorem Meets.under (h : x.Meets P Q) (step : Step) :
    (under step x).Meets P fun is => ∃ js, Q js ∧ is = js.map (Issue.within step) := by
  cases x with
  | ok a => exact ⟨h.1, [], h.2, rfl⟩
  | error issues => exact ⟨by simpa using h.1, issues, h.2, rfl⟩

/-- The issues of two checks come one after the other. -/
theorem Meets.both (hx : x.Meets P Q) (hy : y.Meets R S) :
    (both x y).Meets (fun r => P r.1 ∧ R r.2) fun is => ∃ js ks, Q js ∧ S ks ∧ is = js ++ ks := by
  cases x with
  | ok a =>
    cases y with
    | ok b => exact ⟨⟨hx.1, hy.1⟩, [], [], hx.2, hy.2, rfl⟩
    | error ks => exact ⟨hy.1, [], ks, hx.2, hy.2, rfl⟩
  | error js =>
    cases y with
    | ok b => exact ⟨hx.1, js, [], hx.2, hy.2, (List.append_nil js).symm⟩
    | error ks => exact ⟨by simp [hx.1], js, ks, hx.2, hy.2, rfl⟩

end Checked

/-! ## Single Values -/

namespace Check

theorem text_eq_ok_iff_spells {v : Value} {t : Text} : text v = .ok t ↔ v.Spells t := by
  constructor
  · intro h
    unfold text at h
    split at h
    · cases h
      exact .text t
    -- bytes count as the text that they encode, if they encode one
    · split at h
      · next hdecode =>
        cases h
        rw [Utf8.decode_eq_ok_iff.1 hdecode]
        exact .bytes _
      · cases h
    · cases h
  · rintro (_ | cs)
    · rfl
    · unfold text
      dsimp only
      rw [Utf8.decode_encodeChars]

/-- The check of a value as a whole: all it can say against it is one issue there. -/
def IsSingle {α : Type} (x : Checked α) : Prop :=
  ∀ is, x = .error is → ∃ kind, is = [⟨[], kind⟩]

/-- A value that spells no text has one issue, at its own place. -/
theorem isSingle_text (v : Value) : IsSingle (text v) := by
  intro is h
  unfold text at h
  split at h
  · cases h
  · split at h <;> cases h
    exact ⟨_, rfl⟩
  · cases h
    exact ⟨_, rfl⟩

/-- No word stands for both truth values. -/
theorem notMem_flagWords : ∀ b, ∀ t ∈ flagWords b, t ∉ flagWords !b := by
  decide

/-- A word for a flag is one of those that are listed for it. -/
theorem boolWord?_eq_some_iff {t : Text} {b : Bool} : boolWord? t = some b ↔ t ∈ flagWords b := by
  have htrue : [("true" : Text), "t", "yes", "y", "on", "1"] = flagWords true := rfl
  have hfalse : [("false" : Text), "f", "no", "n", "off", "0"] = flagWords false := rfl
  have honly := notMem_flagWords (!b) t
  unfold boolWord?
  rw [htrue, hfalse]
  cases b <;> grind

/-- The case of letters does not matter to a word for a flag. -/
theorem boolOfText_eq_ok_iff {t : Text} {b : Bool} :
    boolOfText t = .ok b ↔ t.toLowerAscii ∈ flagWords b := by
  rw [← boolWord?_eq_some_iff]
  unfold boolOfText
  split
  · next b' h => simp [h]
  · next h => simp [h, Checked.fail]

/-- Of the integers, one is true and zero is false. -/
theorem boolOfInt_eq_ok_iff {n : ℤ} {b : Bool} : boolOfInt n = .ok b ↔ n = if b then 1 else 0 := by
  unfold boolOfInt
  split_ifs <;> cases b <;> simp_all [Checked.fail]

/-- A value means a flag as a flag, a word, an integer or a number without a fraction. -/
theorem bool_eq_ok_iff {v : Value} {b : Bool} : bool v = .ok b ↔ v.Means b := by
  constructor
  · intro h
    unfold bool at h
    split at h
    · cases h
      exact .bool
    · exact .word (.text _) (boolOfText_eq_ok_iff.1 h)
    · split at h
      · next hdecode =>
        rw [Utf8.decode_eq_ok_iff.1 hdecode]
        exact .word (.bytes _) (boolOfText_eq_ok_iff.1 h)
      · cases h
    · split at h
      · obtain rfl := boolOfInt_eq_ok_iff.1 h
        exact .int
      · cases h
    · split at h
      · next n hn =>
        obtain rfl := boolOfInt_eq_ok_iff.1 h
        exact .float (integerOfFloat_eq_ok_iff.1 hn).1
      · cases h
    · cases h
  -- each spelling of a flag is read as the flag
  · rintro (_ | ⟨_ | cs, hword⟩ | _ | hx)
    · rfl
    · exact boolOfText_eq_ok_iff.2 hword
    · unfold bool
      dsimp only
      rw [Utf8.decode_encodeChars]
      exact boolOfText_eq_ok_iff.2 hword
    · cases b <;> rfl
    · unfold bool
      dsimp only
      rw [integerOfFloat_eq_ok_iff.2 ⟨hx, by cases b <;> decide⟩]
      exact boolOfInt_eq_ok_iff.2 rfl

/-- A value that means no flag has one issue. -/
theorem isSingle_bool (v : Value) : IsSingle (bool v) := by
  intro is h
  unfold bool boolOfText boolOfInt at h
  repeat' split at h
  all_goals cases h
  all_goals exact ⟨_, rfl⟩

end Check

/-! ## Lists -/

/-- The places of the items, in order, that count as no text. -/
def Misfits (items : List Value) (is : List ℕ) : Prop :=
  is.Pairwise (· < ·) ∧ ∀ i, i ∈ is ↔ ∃ v, items[i]? = some v ∧ ¬∃ t, v.Spells t

/-- In an empty list nothing misfits. -/
theorem misfits_nil : Misfits [] [] := by
  simp [Misfits]

/-- A value in front moves the places on, and adds its own if it spells no text. -/
theorem Misfits.cons {v : Value} {items : List Value} {is : List ℕ} (h : Misfits items is) :
    (∀ t, v.Spells t → Misfits (v :: items) (is.map (· + 1))) ∧
      ((¬∃ t, v.Spells t) → Misfits (v :: items) (0 :: is.map (· + 1))) := by
  obtain ⟨hsorted, hmem⟩ := h
  have hshift : (is.map (· + 1)).Pairwise (· < ·) := hsorted.map _ fun _ _ => Nat.succ_lt_succ
  -- behind a new first item every position is one further
  refine ⟨fun t ht => ⟨hshift, fun i => ?_⟩, fun hv => ⟨hshift.cons ?_, fun i => ?_⟩⟩
  · cases i with
    | zero => simpa using ⟨t, ht⟩
    | succ i => simpa using hmem i
  · simp
  · cases i with
    | zero => simpa using hv
    | succ i => simpa using hmem i

namespace Checked

/-- One item that is no text has one issue, at its place. -/
theorem meets_text (v : Value) :
    (Check.text v).Meets v.Spells fun is =>
      (∃ t, v.Spells t) ∧ is = [] ∨ (¬∃ t, v.Spells t) ∧ is.map (·.place) = [[]] := by
  cases h : Check.text v with
  | ok t =>
    have ht := Check.text_eq_ok_iff_spells.1 h
    exact ⟨ht, .inl ⟨⟨t, ht⟩, rfl⟩⟩
  | error is =>
    obtain ⟨kind, rfl⟩ := Check.isSingle_text v is h
    refine ⟨by simp, .inr ⟨?_, rfl⟩⟩
    rintro ⟨t, ht⟩
    cases h.symm.trans (Check.text_eq_ok_iff_spells.2 ht)

/-- The issues of a list are at the places of its items that are no texts. -/
theorem meets_eachFrom_text (n : ℕ) (items : List Value) :
    (eachFrom Check.text n items).Meets (List.Forall₂ Value.Spells items) fun issues =>
      ∃ is, Misfits items is ∧ issues.map (·.place) = is.map fun i => [.index (n + i : ℕ)] := by
  -- the place of the first item moves on with the induction
  induction items generalizing n with
  | nil => exact ⟨.nil, [], misfits_nil, rfl⟩
  | cons v rest ih =>
    refine Meets.map ((((meets_text v).under (.index n)).both (ih (n + 1))).mono (fun _ h => h) ?_)
      fun r h => .cons h.1 h.2
    rintro _ ⟨_, ks, ⟨js, hjs, rfl⟩, ⟨is, hmisfits, hks⟩, rfl⟩
    -- behind the first item, places count from the next number on
    have hshift : (is.map fun i => [Step.index (n + 1 + i : ℕ)]) =
        (is.map (· + 1)).map fun i => [Step.index (n + i : ℕ)] := by
      rw [List.map_map]
      exact List.map_congr_left fun i _ => by simp [Nat.add_assoc, Nat.add_comm 1 i]
    rcases hjs with ⟨⟨t, ht⟩, rfl⟩ | ⟨hnone, hplace⟩
    · exact ⟨_, hmisfits.cons.1 t ht, hks.trans hshift⟩
    · refine ⟨_, hmisfits.cons.2 hnone, ?_⟩
      rw [List.map_append, map_place_within, hplace, hks, hshift]
      rfl

/-- A list is checked item by item, and each of them that is no text has an issue at its place. -/
theorem meets_each_text (items : List Value) :
    (each Check.text items).Meets (List.Forall₂ Value.Spells items) fun issues =>
      ∃ is, Misfits items is ∧ issues.map (·.place) = is.map fun i : ℕ => [.index i] := by
  simpa [each] using meets_eachFrom_text 0 items

end Checked

namespace Config

/-! ## Shapes -/

/-- What a field can hold. -/
inductive Shape where
  | text
  | texts
  | flag
  -- there may be nothing
  | orNull (shape : Shape)

namespace Shape

/-- The values of a field. -/
def Carrier : Shape → Type
  | .text => Text
  | .texts => List Text
  | .flag => Bool
  | .orNull s => Option s.Carrier

/-- What a value is read as. -/
def Reads : (s : Shape) → Value → s.Carrier → Prop
  | .text, v, t => v.Spells t
  | .texts, v, ts => ∃ items, v.Lists items ∧ List.Forall₂ Value.Spells items ts
  | .flag, v, b => v.Means b
  | .orNull _, v, none => v = .scalar .null
  | .orNull s, v, some a => v ≠ .scalar .null ∧ s.Reads v a

/-- The value fits the field. -/
def Fits (s : Shape) (v : Value) : Prop :=
  ∃ a, s.Reads v a

/-- Can the field hold a list? -/
def IsList : Shape → Prop
  | .texts => True
  | .orNull s => s.IsList
  | _ => False

/-- The places in a value that do not fit: none when it fits, each item that is no text when a list is asked for
and it is one, and otherwise the value as a whole. -/
inductive Misses (s : Shape) (v : Value) : List (List Step) → Prop
  | nothing (h : s.Fits v) : Misses s v []
  | items {items : List Value} {is : List ℕ} (h : ¬s.Fits v) (hlist : s.IsList) (hitems : v.Lists items)
    (hmisfits : Misfits items is) (hne : is ≠ []) : Misses s v (is.map fun i : ℕ => [.index i])
  | whole (h : ¬s.Fits v) (hother : s.IsList → ∀ items, ¬v.Lists items) : Misses s v [[]]

/-- Nothing is missed exactly in a value that fits. -/
theorem Misses.eq_nil_iff {s : Shape} {v : Value} {ps : List (List Step)} (h : s.Misses v ps) :
    ps = [] ↔ s.Fits v := by
  cases h with
  | nothing h => exact iff_of_true rfl h
  | items h _ _ _ hne => exact iff_of_false (by simpa using hne) h
  | whole h => exact iff_of_false (by simp) h

/-- The check of the values of a field. -/
def check : (s : Shape) → Value → Checked s.Carrier
  | .text => Check.text
  | .texts => Config.texts
  | .flag => Check.bool
  | .orNull s => Check.optional s.check

theorem meets_single {s : Shape} {v : Value} {x : Checked s.Carrier} (hlist : ¬s.IsList)
    (hok : ∀ a, x = .ok a ↔ s.Reads v a) (herror : Check.IsSingle x) :
    x.Meets (s.Reads v) fun is => s.Misses v (is.map (·.place)) := by
  cases x with
  | ok a => exact ⟨(hok a).1 rfl, .nothing ⟨a, (hok a).1 rfl⟩⟩
  | error is =>
    obtain ⟨kind, rfl⟩ := herror is rfl
    refine ⟨by simp, .whole ?_ fun h => absurd h hlist⟩
    rintro ⟨a, ha⟩
    cases (hok a).2 ha

/-- Whether a list fits does not depend on the order in which the members of a set are taken. -/
theorem not_fits_of_misfits {v : Value} {items : List Value} {is : List ℕ} (h : v.Lists items)
    (hmisfits : Misfits items is) (his : is ≠ []) : ¬Fits .texts v := by
  rintro ⟨ts, us, hus, hts⟩
  obtain ⟨i, hi⟩ := List.exists_mem_of_ne_nil is his
  obtain ⟨u, hu, hnone⟩ := (hmisfits.2 i).1 hi
  -- the item is there in any order, so it would have to be a text
  have hmem : u ∈ us := by
    have hu := List.mem_of_getElem? hu
    cases h with
    | list | pair =>
      cases hus
      exact hu
    | set h =>
      cases hus with
      | set hus => exact hus.symm.subset (h.subset hu)
  obtain ⟨t, -, ht⟩ := hts.flip.exists_of_mem_right hmem
  exact hnone ⟨t, ht⟩

/-- Of a list, the items that are no texts do not fit. -/
theorem meets_listed {v : Value} {items : List Value} (h : v.Lists items) :
    (Checked.each Check.text items).Meets (Reads .texts v) fun is => Misses .texts v (is.map (·.place)) := by
  have hmeets := Checked.meets_each_text items
  cases heach : Checked.each Check.text items with
  | ok ts =>
    rw [heach] at hmeets
    exact ⟨⟨items, h, hmeets.1⟩, .nothing ⟨ts, items, h, hmeets.1⟩⟩
  | error issues =>
    rw [heach] at hmeets
    obtain ⟨hne, is, hmisfits, hplaces⟩ := hmeets
    -- where there are issues, some place misfits
    have his : is ≠ [] := by
      rintro rfl
      exact hne (List.map_eq_nil_iff.1 hplaces)
    refine ⟨hne, ?_⟩
    dsimp only
    rw [hplaces]
    exact Misses.items (s := .texts) (not_fits_of_misfits h hmisfits his) trivial h hmisfits his

/-- What is no list does not fit as a whole. -/
theorem meets_unlisted {v : Value} (h : ∀ items, ¬v.Lists items) :
    (Checked.fail .listType : Checked (List Text)).Meets (Reads .texts v) fun is =>
      Misses .texts v (is.map (·.place)) := by
  refine ⟨by simp, .whole ?_ fun _ => h⟩
  rintro ⟨ts, items, hitems, -⟩
  exact h items hitems

/-- A list of texts may be written as any sequence. -/
theorem meets_texts (v : Value) :
    (Config.texts v).Meets (Reads .texts v) fun is => Misses .texts v (is.map (·.place)) := by
  cases v with
  | list items => exact meets_listed (.list items)
  | pair a b => exact meets_listed (.pair a b)
  | set members => exact meets_listed (.set (.refl _))
  | _ => exact meets_unlisted fun items => nofun

/-! ### Settings That May Be Absent -/

section

variable {s : Shape} {v : Value}

/-- Unless it is null, a value is checked as if null were not allowed. -/
theorem check_orNull (hv : v ≠ .scalar .null) : (orNull s).check v = (s.check v).map some := by
  change Check.optional s.check v = _
  unfold Check.optional
  split
  · contradiction
  · rfl

/-- And it fits if it does so then. -/
theorem fits_orNull_iff (hv : v ≠ .scalar .null) : (orNull s).Fits v ↔ s.Fits v := by
  constructor
  · rintro ⟨_ | a, ha⟩
    · exact absurd ha hv
    · exact ⟨a, ha.2⟩
  · rintro ⟨a, ha⟩
    exact ⟨some a, hv, ha⟩

/-- Or misses in the same places. -/
theorem Misses.orNull {ps : List (List Step)} (hv : v ≠ .scalar .null) (h : s.Misses v ps) :
    (orNull s).Misses v ps := by
  cases h with
  | nothing h => exact .nothing ((fits_orNull_iff hv).2 h)
  | items h hlist hitems hmisfits hne =>
    exact .items ((fits_orNull_iff hv).not.2 h) hlist hitems hmisfits hne
  | whole h hother => exact .whole ((fits_orNull_iff hv).not.2 h) hother

end

/-! ### All Shapes -/

/-- **The check of a setting** gives what a value that fits is read as, and for any other value one issue for each
place that does not fit. -/
theorem meets_check (s : Shape) (v : Value) :
    (s.check v).Meets (s.Reads v) fun is => s.Misses v (is.map (·.place)) := by
  -- on the shape
  induction s with
  | text => exact meets_single id (fun _ => Check.text_eq_ok_iff_spells) (Check.isSingle_text v)
  | texts => exact meets_texts v
  | flag => exact meets_single id (fun _ => Check.bool_eq_ok_iff) (Check.isSingle_bool v)
  | orNull s ih =>
    by_cases hv : v = .scalar .null
    · subst hv
      exact ⟨rfl, .nothing ⟨none, rfl⟩⟩
    · -- anything but null is left to the shape inside
      rw [check_orNull hv]
      exact (ih.map fun a ha => ⟨hv, ha⟩).mono (fun _ h => h) fun is his => his.orNull hv

end Shape

end Config

end SchemaGraft
