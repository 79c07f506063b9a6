import Mathlib.Tactic
import SchemaGraft.Text.Codepoint

/-!
# Replacing in Texts

Replacing every occurrence of a pattern in a text changes what it should when the text has no occurrences but
those that were meant: a text with gaps, into which the pattern was written, gets the value in its gaps
exactly when the pattern occurs in it as often as there are gaps, or is its own value.

## Architecture

- **Occurrences**: `Text.occurrences` counts all places at which a pattern occurs.
- **Replacing**: one lemma for each step of `Text.replaceAll`, and `Text.length_replaceAll`.  The patterns are
  `a :: q` with `a ∉ q`, so that no two occurrences overlap.
- **Gaps**: `Text.plug` fills the gaps of a text.
- **Main result**: `Text.replaceAll_plug_iff`.
-/

namespace SchemaGraft.Text

variable {p q t u v : Text} {a c : Codepoint}

/-! ## Occurrences -/

/-- The number of places at which the pattern occurs in the text. -/
def occurrences (pattern t : Text) : ℕ :=
  t.tails.countP fun rest => pattern.isPrefixOf rest

/-- There is nothing in an empty text. -/
theorem occurrences_nil (hp : p ≠ []) : occurrences p [] = 0 := by
  cases p with
  | nil => exact absurd rfl hp
  | cons a q => rfl

/-- An occurrence starts at the first code point, or is one of the rest. -/
theorem occurrences_cons (p : Text) (c : Codepoint) (t : Text) :
    occurrences p (c :: t) = occurrences p t + if p <+: c :: t then 1 else 0 := by
  rw [occurrences, List.tails_cons, List.countP_cons]
  simp only [List.isPrefixOf_iff_prefix]
  rfl

/-- Without occurrences, the pattern is no part of the text. -/
theorem occurrences_eq_zero_iff : occurrences p t = 0 ↔ ¬p <:+: t := by
  rw [occurrences, List.countP_eq_zero, List.infix_iff_prefix_suffix]
  simp only [List.mem_tails, List.isPrefixOf_iff_prefix, not_exists, not_and]
  exact forall_congr' fun rest => imp_not_comm

/-- A text in which the first code point of the pattern does not occur adds no occurrence. -/
theorem occurrences_append_of_notMem (h : a ∉ u) (t : Text) :
    occurrences (a :: q) (u ++ t) = occurrences (a :: q) t := by
  induction u with
  | nil => rfl
  | cons c u ih =>
    rw [List.mem_cons, not_or] at h
    have hprefix : ¬(a :: q) <+: c :: (u ++ t) := fun hprefix => h.1 (List.cons_prefix_cons.mp hprefix).1
    rw [List.cons_append, occurrences_cons, if_neg hprefix, ih h.2, Nat.add_zero]

/-- A pattern in front of a text is one occurrence more, since no other one can start inside of it. -/
theorem occurrences_pattern_append (ha : a ∉ q) (t : Text) :
    occurrences (a :: q) (a :: q ++ t) = occurrences (a :: q) t + 1 := by
  have hprefix : a :: q <+: a :: (q ++ t) := List.prefix_append (a :: q) t
  rw [List.cons_append, occurrences_cons, if_pos hprefix, occurrences_append_of_notMem ha]

/-! ## Replacing -/

/-- One of some patterns is at the front of a text, or the text goes on behind its first code point. -/
theorem reading_induction (patterns : List Text) {motive : Text → Prop}
    (hpatterns : ∀ p ∈ patterns, p ≠ []) (nil : motive [])
    (found : ∀ p ∈ patterns, ∀ t, motive t → motive (p ++ t))
    (other : ∀ c t, (∀ p ∈ patterns, ¬p <+: c :: t) → motive t → motive (c :: t)) (t : Text) :
    motive t := by
  induction hn : t.length using Nat.strongRecOn generalizing t with
  | ind n ih =>
    subst hn
    -- at each place one of the patterns stands here, or none does
    by_cases hfound : ∃ p ∈ patterns, p <+: t
    · obtain ⟨p, hp, rest, rfl⟩ := hfound
      refine found p hp rest (ih rest.length ?_ rest rfl)
      rw [List.length_append]
      exact Nat.lt_add_of_pos_left (List.length_pos_of_ne_nil (hpatterns p hp))
    · cases t with
      | nil => exact nil
      | cons c rest =>
        simp only [not_exists, not_and] at hfound
        exact other c rest hfound (ih rest.length (Nat.lt_succ_self _) rest rfl)

/-- Induction along the way in which a pattern is replaced. -/
theorem replacing_induction {motive : Text → Prop} (hp : p ≠ []) (nil : motive [])
    (found : ∀ t, motive t → motive (p ++ t))
    (other : ∀ c t, ¬p <+: c :: t → motive t → motive (c :: t)) (t : Text) : motive t := by
  apply reading_induction [p] <;> simpa only [List.forall_mem_singleton]

/-- What belongs to a pattern that was replaced is skipped. -/
theorem replaceAll_go (p v : Text) (skip : ℕ) (t : Text) :
    replaceAll.go p v skip t = replaceAll.go p v 0 (t.drop skip) := by
  induction t generalizing skip with
  | nil => cases skip <;> rfl
  | cons c rest ih =>
    cases skip with
    | zero => rfl
    | succ skip => exact ih skip

theorem replaceAll_nil (p v : Text) : replaceAll [] p v = [] := by
  cases p <;> rfl

/-- A place where the pattern does not stand is kept. -/
theorem replaceAll_cons (h : ¬p <+: c :: t) (v : Text) :
    replaceAll (c :: t) p v = c :: replaceAll t p v := by
  cases p with
  | nil => exact absurd List.nil_prefix h
  | cons a q =>
    have hgo : replaceAll.go (a :: q) v 0 (c :: t) = c :: replaceAll.go (a :: q) v 0 t := by
      rw [replaceAll.go, if_neg (by rwa [List.isPrefixOf_iff_prefix])]
    exact hgo

/-- Where the pattern stands, the value takes its place. -/
theorem replaceAll_append (hp : p ≠ []) (t v : Text) :
    replaceAll (p ++ t) p v = v ++ replaceAll t p v := by
  cases p with
  | nil => exact absurd rfl hp
  | cons a q =>
    have hfound : (a :: q).isPrefixOf (a :: (q ++ t)) = true :=
      List.isPrefixOf_iff_prefix.mpr (List.prefix_append (a :: q) t)
    have hgo : replaceAll.go (a :: q) v 0 (a :: (q ++ t)) = v ++ replaceAll.go (a :: q) v 0 t := by
      rw [replaceAll.go, if_pos hfound, replaceAll_go, List.length_cons, Nat.add_sub_cancel,
        List.drop_left]
    exact hgo

/-- A pattern that is its own value stays. -/
theorem replaceAll_self (t p : Text) : replaceAll t p p = t := by
  by_cases hp : p = []
  · rw [hp]
    rfl
  · induction t using replacing_induction hp with
    | nil => exact replaceAll_nil p p
    | found t ih => rw [replaceAll_append hp, ih]
    | other c t h ih => rw [replaceAll_cons h, ih]

/-- Each replacement changes the length by the difference of the lengths. -/
theorem length_replaceAll (ha : a ∉ q) (t v : Text) :
    (replaceAll t (a :: q) v).length + occurrences (a :: q) t * (a :: q).length =
      t.length + occurrences (a :: q) t * v.length := by
  have hp : a :: q ≠ [] := List.cons_ne_nil a q
  induction t using replacing_induction hp with
  | nil => rw [replaceAll_nil, occurrences_nil hp, Nat.zero_mul, Nat.zero_mul]
  | found t ih =>
    -- the pattern in front is one occurrence
    rw [replaceAll_append hp, occurrences_pattern_append ha, List.length_append, List.length_append,
      Nat.add_mul, Nat.add_mul]
    omega
  | other c t h ih =>
    have hcons (s : Text) : (c :: s).length = s.length + 1 := List.length_cons
    rw [replaceAll_cons h, occurrences_cons, if_neg h, Nat.add_zero, hcons, hcons]
    omega

/-! ## Gaps -/

/-- A text with gaps, all of which get the same filling. -/
def plug (gapped : List (Option Codepoint)) (filling : Text) : Text :=
  gapped.flatMap fun
    | none => filling
    | some c => [c]

variable {gapped : List (Option Codepoint)}

theorem plug_none (gapped : List (Option Codepoint)) (w : Text) :
    plug (none :: gapped) w = w ++ plug gapped w := rfl

theorem plug_some (c : Codepoint) (gapped : List (Option Codepoint)) (w : Text) :
    plug (some c :: gapped) w = c :: plug gapped w := rfl

/-- Gaps are filled from left to right. -/
theorem plug_append (gapped gapped' : List (Option Codepoint)) (w : Text) :
    plug (gapped ++ gapped') w = plug gapped w ++ plug gapped' w :=
  List.flatMap_append

/-- A text without gaps is itself. -/
theorem plug_map_some (t w : Text) : plug (t.map some) w = t := by
  induction t with
  | nil => rfl
  | cons c t ih => rw [List.map_cons, plug_some, ih]

/-- The length is that of the fixed places and of the value for each gap. -/
theorem length_plug (gapped : List (Option Codepoint)) (w : Text) :
    (plug gapped w).length = gapped.count none * w.length + gapped.countP Option.isSome := by
  -- on the gapped text: a gap takes the inserted text, and any other place one codepoint
  induction gapped with
  | nil => simp [plug]
  | cons m gapped ih =>
    cases m with
    | none =>
      rw [plug_none, List.length_append, ih, List.count_cons_self, Nat.add_mul]
      simp
      omega
    | some c =>
      rw [plug_some, List.length_cons, ih, List.count_cons_of_ne (by simp)]
      simp
      omega

/-- The pattern occurs wherever it fills a gap. -/
theorem count_le_occurrences (ha : a ∉ q) (gapped : List (Option Codepoint)) :
    gapped.count none ≤ occurrences (a :: q) (plug gapped (a :: q)) := by
  induction gapped with
  | nil => exact Nat.zero_le _
  | cons m gapped ih =>
    cases m with
    | none =>
      rw [plug_none, occurrences_pattern_append ha, List.count_cons_self]
      exact Nat.succ_le_succ ih
    | some c =>
      rw [plug_some, occurrences_cons, List.count_cons_of_ne (by simp)]
      exact ih.trans (Nat.le_add_right _ _)

/-- With no other occurrences, all that is replaced are the gaps. -/
theorem replaceAll_plug (ha : a ∉ q) (v : Text)
    (hcount : occurrences (a :: q) (plug gapped (a :: q)) = gapped.count none) :
    replaceAll (plug gapped (a :: q)) (a :: q) v = plug gapped v := by
  have hp : a :: q ≠ [] := List.cons_ne_nil a q
  induction gapped with
  | nil => exact replaceAll_nil (a :: q) v
  | cons m gapped ih =>
    cases m with
    | none =>
      rw [plug_none, occurrences_pattern_append ha, List.count_cons_self] at hcount
      rw [plug_none, plug_none, replaceAll_append hp, ih (Nat.succ.inj hcount)]
    | some c =>
      rw [plug_some, occurrences_cons, List.count_cons_of_ne (by simp)] at hcount
      have hle := count_le_occurrences ha gapped
      -- an occurrence at a fixed place would be one too many
      have hfront : ¬a :: q <+: c :: plug gapped (a :: q) := by
        intro hfront
        rw [if_pos hfront] at hcount
        omega
      rw [if_neg hfront] at hcount
      rw [plug_some, plug_some, replaceAll_cons hfront, ih hcount]

/-- A text without the first code point of the pattern is not in a gap that the pattern fills. -/
theorem prefix_plug_of_notMem (h : a ∉ u) (hu : u <+: plug gapped (a :: q)) (v : Text) :
    u <+: plug gapped v := by
  induction u generalizing gapped with
  | nil => exact List.nil_prefix
  | cons b u ih =>
    rw [List.mem_cons, not_or] at h
    cases gapped with
    | nil => cases List.prefix_nil.mp hu
    | cons m gapped =>
      cases m with
      -- a gap starts with a code point that is not in the text
      | none =>
        rw [plug_none, List.cons_append, List.cons_prefix_cons] at hu
        exact absurd hu.1.symm h.1
      | some c =>
        rw [plug_some, List.cons_prefix_cons] at hu ⊢
        exact ⟨hu.1, ih h.2 hu.2⟩

/-- Where another occurrence is replaced by another text of the same length, the texts differ. -/
theorem occurrences_of_replaceAll_plug_of_length (ha : a ∉ q) (hlength : v.length = (a :: q).length)
    (hne : v ≠ a :: q)
    (h : replaceAll (plug gapped (a :: q)) (a :: q) v = plug gapped v) :
    occurrences (a :: q) (plug gapped (a :: q)) = gapped.count none := by
  have hp : a :: q ≠ [] := List.cons_ne_nil a q
  induction gapped with
  | nil => exact occurrences_nil hp
  | cons m gapped ih =>
    cases m with
    | none =>
      rw [plug_none, plug_none, replaceAll_append hp] at h
      rw [plug_none, occurrences_pattern_append ha, List.count_cons_self,
        ih (List.append_cancel_left h)]
    | some c =>
      have hfront : ¬a :: q <+: plug (some c :: gapped) (a :: q) := by
        -- the pattern would stand in one text where the value stands in the other
        intro hfront
        have hfilled : a :: q <+: plug (some c :: gapped) v := by
          rw [plug_some, List.cons_prefix_cons] at hfront ⊢
          exact ⟨hfront.1, prefix_plug_of_notMem ha hfront.2 v⟩
        obtain ⟨rest, hrest⟩ := hfront
        have hvalue : v <+: plug (some c :: gapped) v := by
          rw [← h, ← hrest, replaceAll_append hp]
          exact List.prefix_append v _
        exact hne ((List.prefix_of_prefix_length_le hvalue hfilled hlength.le).eq_of_length hlength)
      rw [plug_some] at hfront h
      rw [replaceAll_cons hfront, plug_some] at h
      rw [plug_some, occurrences_cons, if_neg hfront, List.count_cons_of_ne (by simp),
        ih (List.cons.inj h).2]
      rfl

/-! ## Main Result -/

/-- **Replacing the pattern in a text with gaps that it fills gives the gaps the value** and leaves the rest
alone, exactly when the pattern occurs nowhere else, or is replaced by itself. -/
theorem replaceAll_plug_iff (ha : a ∉ q) (gapped : List (Option Codepoint)) (v : Text) :
    replaceAll (plug gapped (a :: q)) (a :: q) v = plug gapped v ↔
      occurrences (a :: q) (plug gapped (a :: q)) = gapped.count none ∨ v = a :: q := by
  constructor
  · intro h
    by_cases hv : v = a :: q
    · exact .inr hv
    · refine .inl ?_
      by_cases hlength : v.length = (a :: q).length
      · exact occurrences_of_replaceAll_plug_of_length ha hlength hv h
      · -- every other occurrence changes the length
        have hreplaced := length_replaceAll ha (plug gapped (a :: q)) v
        obtain ⟨d, hd⟩ := Nat.exists_eq_add_of_le (count_le_occurrences ha gapped)
        rw [h, hd, length_plug, length_plug] at hreplaced
        have hmul : d * (a :: q).length = d * v.length := by
          rw [Nat.add_mul, Nat.add_mul] at hreplaced
          omega
        rcases Nat.eq_zero_or_pos d with rfl | hpos
        · exact hd
        · exact absurd (Nat.eq_of_mul_eq_mul_left hpos hmul).symm hlength
  · rintro (hcount | rfl)
    · exact replaceAll_plug ha v hcount
    · exact replaceAll_self _ _

end SchemaGraft.Text
