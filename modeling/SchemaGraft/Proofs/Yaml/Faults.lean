import SchemaGraft.Proofs.Outcome
import SchemaGraft.Proofs.Yaml.Composing
import SchemaGraft.Yaml.Document

/-!
# Faults of YAML Documents

A text that denotes no value is malformed, unless it has an escape by number for what is no character or a
version with too many digits, nests its collections too deeply, or has a scalar that denotes no value of its
kind.

## Architecture

- **Scalars**: `Yaml.Node.scalars` are the readings of the scalars of a node.
- **Nodes**: `Yaml.Reading.Fails` says for which faults reading fails; `Yaml.Node.fails_value` goes through the
  nodes.
- **Main results**: `Yaml.Trouble` lists what else can be wrong with a text.  `Yaml.trouble_of_load` says that
  nothing else can, and `Yaml.load_of_plain` that in a plain text nothing is.
-/

namespace SchemaGraft

namespace Yaml

/-! ## Scalars -/

namespace Node

mutual

/-- What the scalars of a node are read as.  A mapping with a default value may count as a scalar, too. -/
def scalars : Node → List (Except Fault Scalar)
  | .scalar tag t => [scalarOf tag t]
  | .sequence _ items => scalarsOfItems items
  | .mapping tag es => ((defaultContent? es).map (scalarOfDefault tag)).toList ++ scalarsOfEntries es
  | .cycle _ => []

def scalarsOfItems : List Node → List (Except Fault Scalar)
  | [] => []
  | n :: rest => scalars n ++ scalarsOfItems rest

def scalarsOfEntries : List (Node × Node) → List (Except Fault Scalar)
  | [] => []
  | (k, v) :: rest => scalars k ++ (scalars v ++ scalarsOfEntries rest)

end

/-- A fault of some scalars: the text is malformed, or one of them denotes no value for this reason. -/
def Spoiled (ss : List (Except Fault Scalar)) (f : Fault) : Prop :=
  f = .malformed ∨ .error f ∈ ss

end Node

/-! ## Readings -/

namespace Reading

open Node (Spoiled)

variable {α β : Type} {x : Reading α} {y : Reading β} {ss : List (Except Fault Scalar)}

/-- Reading fails only for a fault of some scalars. -/
def Fails (ss : List (Except Fault Scalar)) (x : Reading α) : Prop :=
  ∀ e, x = .error e → Spoiled ss e.fault

theorem fails_ok (a : α) : Fails ss (.ok a : Reading α) := nofun

theorem fails_malformed : Fails ss (malformed : Reading α) := by
  rintro _ ⟨⟩
  exact .inl rfl

/-- A scalar that is read fails with a fault of its own. -/
theorem fails_ofExcept {s : Except Fault Scalar} (h : s ∈ ss) : Fails ss (ofExcept s) := by
  intro e he
  cases s with
  | ok a => cases he
  | error f =>
    cases he
    exact .inr h

namespace Fails

/-- What is made of an outcome adds no fault. -/
theorem map (h : Fails ss x) (f : α → β) : Fails ss (x.map f) := by
  cases x with
  | ok a => exact fails_ok _
  | error e =>
    rintro _ ⟨⟩
    exact h e rfl

/-- Nor does the level at which a fault is found. -/
theorem deeper (h : Fails ss x) : Fails ss x.deeper := by
  cases x with
  | ok a => exact fails_ok _
  | error e =>
    rintro _ ⟨⟩
    exact h e rfl

/-- Of two readings, one decides, with a fault of its own. -/
theorem both (hx : Fails ss x) (hy : Fails ss y) : Fails ss (Reading.both x y) := by
  intro e he
  rcases x with f | a <;> rcases y with g | b <;> cases he
  · -- whichever of the two counts, it is a fault of the scalars
    split
    · exact hy _ rfl
    · exact hx _ rfl
  · exact hx _ rfl
  · exact hy _ rfl

end Fails

end Reading

/-! ## Nodes -/

namespace Node

open Reading

variable {ss : List (Except Fault Scalar)}

/-- What is taken over and what a mapping has of its own fail for their own faults. -/
theorem fails_joined {taken own : Reading (List (Scalar × Value))} (htaken : Fails ss taken)
    (hown : Fails ss own) : Fails ss (joined taken own) :=
  (htaken.both hown).map _

/-- Entries that cannot be told apart, or not be taken over, are malformed. -/
theorem fails_checked {entries : Reading (List (Scalar × Value))} (h : Fails ss entries)
    (isMergeable : Bool) : Fails ss (checked isMergeable entries) := by
  refine Fails.deeper ?_
  split
  · exact h.map _
  · exact fails_malformed

/-- Every text is a text. -/
theorem fails_text (t : Text) : Fails ss (ofExcept (scalarOf .text t)) :=
  fails_ok _

/-- What a key denotes is a text, or a scalar of the node. -/
theorem fails_key {n : Node} (h : n.scalars ⊆ ss) : Fails ss n.key := by
  unfold key scalar?
  cases n with
  | scalar tag t =>
    dsimp only
    split_ifs
    · exact fails_text t
    · exact fails_ofExcept (h List.mem_cons_self)
  -- a mapping with a default value is read as that scalar
  | mapping tag es =>
    rw [scalars] at h
    dsimp only
    cases hdefault : defaultContent? es with
    | some t =>
      rw [hdefault] at h
      split_ifs
      · exact fails_text t
      · exact fails_ofExcept (h List.mem_cons_self)
    | none => exact fails_malformed
  | sequence | cycle => exact fails_malformed

mutual

/-- What a node denotes fails for a fault of its scalars, whatever its tag makes of it. -/
theorem fails_value : ∀ {n : Node}, n.scalars ⊆ ss → Fails ss n.value
  | .cycle isMapping, _ => by
    rw [value]
    exact fails_ok _
  | .scalar tag t, h => by
    rw [value]
    split
    · exact fails_malformed.deeper
    · exact (fails_ofExcept (h List.mem_cons_self)).map _
  | .sequence tag items, h => by
    rw [scalars] at h
    rw [value.eq_def]
    dsimp only
    split
    · exact ((fails_values h).map _).deeper
    · exact ((fails_pairs h).map _).deeper
    · exact ((fails_pairs h).map _).deeper
    · exact fails_malformed.deeper
    · exact fails_malformed.deeper
    · exact fails_malformed
  | .mapping tag es, h => by
    obtain ⟨hdefault, hes⟩ := List.append_subset.1 h
    -- the same entries are read for a mapping and for a set
    have hentries := fails_checked (fails_joined (fails_takenOver hes) (fails_ownEntries hes)) (mergeable es)
    rw [value.eq_def]
    dsimp only
    split
    · exact hentries.map _
    · exact hentries.map _
    · exact fails_malformed.deeper
    · exact fails_malformed.deeper
    · exact fails_malformed.deeper
    · split
      · next ht =>
        rw [ht] at hdefault
        exact (fails_ofExcept (hdefault List.mem_cons_self)).map _
      · exact fails_malformed

theorem fails_values : ∀ {items : List Node}, scalarsOfItems items ⊆ ss → Fails ss (values items)
  | [], _ => by
    rw [values]
    exact fails_ok _
  | n :: rest, h => by
    obtain ⟨hn, hrest⟩ := List.append_subset.1 h
    rw [values]
    exact ((fails_value hn).both (fails_values hrest)).map _

/-- Items that are to be pairs are malformed, or fail for the parts of a pair. -/
theorem fails_pairs : ∀ {items : List Node}, scalarsOfItems items ⊆ ss → Fails ss (pairs items)
  | [], _ => by
    rw [pairs]
    exact fails_ok _
  -- of the items of such a sequence, only mappings of one entry are read
  | .mapping _ [(k, v)] :: rest, h => by
    simp only [scalarsOfItems, scalars, scalarsOfEntries, List.append_subset] at h
    obtain ⟨⟨-, hk, hv, -⟩, hrest⟩ := h
    rw [pairs]
    exact (((fails_value hk).both (fails_value hv)).both (fails_pairs hrest)).map _
  | .scalar .. :: _, _ | .sequence .. :: _, _ | .cycle _ :: _, _ | .mapping _ [] :: _, _
  | .mapping _ (_ :: _ :: _) :: _, _ => by
    rw [pairs]
    · exact fails_malformed
    all_goals simp

/-- Entries fail for a key or a value of theirs. -/
theorem fails_ownEntries :
    ∀ {es : List (Node × Node)}, scalarsOfEntries es ⊆ ss → Fails ss (ownEntries es)
  | [], _ => by
    rw [ownEntries]
    exact fails_ok _
  | (k, v) :: rest, h => by
    simp only [scalarsOfEntries, List.append_subset] at h
    obtain ⟨hk, hv, hrest⟩ := h
    rw [ownEntries]
    -- a merge key is taken over by its own rule
    split
    · exact fails_ownEntries hrest
    · exact (((fails_key hk).both (fails_value hv)).both (fails_ownEntries hrest)).map _

/-- What is taken over fails for the mappings that it is taken from. -/
theorem fails_takenOver :
    ∀ {es : List (Node × Node)}, scalarsOfEntries es ⊆ ss → Fails ss (takenOver es)
  | [], _ => by
    rw [takenOver]
    exact fails_ok _
  | (k, v) :: rest, h => by
    simp only [scalarsOfEntries, List.append_subset] at h
    obtain ⟨-, hv, hrest⟩ := h
    rw [takenOver]
    -- only the entries under a merge key are taken over
    split
    · exact fails_joined (fails_sourceEntries hv) (fails_takenOver hrest)
    · exact fails_takenOver hrest

/-- A mapping that is taken over fails as it would on its own. -/
theorem fails_sourceEntries : ∀ {n : Node}, n.scalars ⊆ ss → Fails ss (sourceEntries n)
  | .mapping _ es, h => by
    have hes := (List.append_subset.1 h).2
    rw [sourceEntries]
    exact fails_joined (fails_takenOver hes) (fails_ownEntries hes)
  | .sequence _ items, h => by
    rw [scalars] at h
    rw [sourceEntries]
    exact fails_sourceItems h
  | .scalar .., _ | .cycle _, _ => by
    rw [sourceEntries]
    · exact fails_ok _
    all_goals simp

theorem fails_sourceItems : ∀ {items : List Node}, scalarsOfItems items ⊆ ss → Fails ss (sourceItems items)
  | [], _ => by
    rw [sourceItems]
    exact fails_ok _
  | .mapping _ es :: rest, h => by
    obtain ⟨hn, hrest⟩ := List.append_subset.1 h
    have hes := (List.append_subset.1 hn).2
    rw [sourceItems]
    exact fails_joined (fails_sourceItems hrest) (fails_joined (fails_takenOver hes) (fails_ownEntries hes))
  -- what is no mapping has no entries to take over
  | .sequence .. :: rest, h | .scalar .. :: rest, h | .cycle _ :: rest, h => by
    rw [sourceItems]
    · exact fails_sourceItems (List.append_subset.1 h).2
    all_goals simp

end

end Node

/-! ## Documents -/

/-- What is wrong with a text that is not malformed and denotes no value all the same. -/
inductive Trouble (cs : List Char) : Fault → Prop
  /-- An escape denotes a number that is none of a character. -/
  | badCodepoint (h : '\\' ∈ cs) : Trouble cs .badCodepoint
  /-- An escape denotes a number of more than 31 bits. -/
  | hugeCodepoint (h : '\\' ∈ cs) : Trouble cs .hugeCodepoint
  /-- A version has too many digits in a row. -/
  | longInteger {digits : List Char} (h : digits <:+: cs) (hdigits : digits.all Digits.isDecimal = true)
    (hlong : maxVersionDigits < digits.length) : Trouble cs (.longInteger digits.length)
  /-- Too many collections may be open at once. -/
  | tooDeep (h : Compose.maxDepth ≤ (Token.scan cs).countP Token.opens) : Trouble cs .tooDeep
  /-- A scalar denotes no value of its kind. -/
  | scalar {root : Node} {f : Fault} (hroot : Node.ofTokens? (Token.scan cs) = .ok (some root))
    (hmem : .error f ∈ root.scalars) (hother : f ≠ .malformed) : Trouble cs f

/-- Characters that form no token make a text malformed, or are among the other things that may be wrong with
it. -/
theorem trouble_of_unscannable {cs : List Char} {f : Fault} (h : Unscannable cs f) :
    f = .malformed ∨ Trouble cs f := by
  cases h with
  | malformed => exact .inl rfl
  | badCodepoint h => exact .inr (.badCodepoint h)
  | hugeCodepoint h => exact .inr (.hugeCodepoint h)
  | longInteger h hdigits hlong => exact .inr (.longInteger h hdigits hlong)

/-- **A text that denotes no value is malformed or in trouble.** -/
theorem trouble_of_load {cs : List Char} {f : Fault} (h : load cs = .error f) :
    f = .malformed ∨ Trouble cs f := by
  unfold load at h
  cases hroot : Node.ofTokens? (Token.scan cs) with
  | error g =>
    rw [hroot] at h
    cases h
    -- the tokens form no node, and what stops them leads back to the characters
    cases unreadable_of_ofTokens? hroot with
    | malformed => exact .inl rfl
    | broken h => exact trouble_of_unscannable (unscannable_of_mem_scan h)
    | tooDeep h => exact .inr (.tooDeep h)
  | ok root? =>
    rw [hroot] at h
    cases root? with
    | none => cases h
    | some root =>
      simp only [Except.ok_bind] at h
      split at h
      · cases h
      · next e he =>
        -- they form one, and its reading fails
        cases h
        rcases Node.fails_value (List.Subset.refl _) e he with hmalformed | hmem
        · exact .inl hmalformed
        · exact or_iff_not_imp_left.2 fun hother => .scalar hroot hmem hother

/-- A text without escapes and without overly many digits in a row, with less collections than may be nested, in
which each scalar denotes a value, or makes the text malformed. -/
structure Plain (cs : List Char) : Prop where
  noEscape : '\\' ∉ cs
  shortNumbers : ∀ digits, digits <:+: cs → digits.all Digits.isDecimal = true →
    digits.length ≤ maxVersionDigits
  shallow : (Token.scan cs).countP Token.opens < Compose.maxDepth
  scalars : ∀ root, Node.ofTokens? (Token.scan cs) = .ok (some root) →
    ∀ f, .error f ∈ root.scalars → f = .malformed

/-- In a plain text, nothing of the kind is wrong. -/
theorem Plain.not_trouble {cs : List Char} (h : Plain cs) (f : Fault) : ¬Trouble cs f := by
  rintro (hescape | hescape | ⟨hdigits, hall, hlong⟩ | hdeep | ⟨hroot, hmem, hother⟩)
  · exact h.noEscape hescape
  · exact h.noEscape hescape
  · exact Nat.not_le.2 hlong (h.shortNumbers _ hdigits hall)
  · exact Nat.not_le.2 h.shallow hdeep
  · exact hother (h.scalars _ hroot f hmem)

/-- **A plain text denotes a value, or is malformed.** -/
theorem load_of_plain {cs : List Char} {f : Fault} (hplain : Plain cs) (h : load cs = .error f) :
    f = .malformed :=
  (trouble_of_load h).resolve_right (hplain.not_trouble f)

end Yaml

end SchemaGraft
