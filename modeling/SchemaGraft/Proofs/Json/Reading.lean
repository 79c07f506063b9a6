import SchemaGraft.Json.Reader
import SchemaGraft.Proofs.Json.Shape
import SchemaGraft.Proofs.Outcome
import SchemaGraft.Proofs.Text.Numeral

/-!
# What the Reader Returns

No object that the reader of JSON texts returns repeats a name, and no integer is too long, whatever the
text.
-/

namespace SchemaGraft.Json

/-- What a reader may return: no object repeats a name, and no integer has too many digits. -/
def AsRead : Json → Prop :=
  Everywhere (fun | .int n => n.natAbs < 10 ^ maxIntegerDigits | _ => True) List.Nodup

theorem asRead_ofPairs {pairs : List (Text × Json)} (h : ∀ m ∈ pairs, m.2.AsRead) :
    (object (ofPairs pairs)).AsRead :=
  everywhere_object.mpr ⟨nodup_names_ofPairs pairs, fun m hm => h m (mem_of_mem_ofPairs hm)⟩

/-- A numeral that is short enough denotes an integer that is, with either sign. -/
theorem asRead_int {whole : List Char} (h : ¬maxIntegerDigits < whole.length) {n : ℤ}
    (hn : n.natAbs = Digits.value whole) : (int n).AsRead := by
  show n.natAbs < _
  rw [hn]
  exact (Digits.value_lt whole).trans_le (Nat.pow_le_pow_right (by decide) (Nat.le_of_not_lt h))

theorem asRead_of_readNumber {cs rest : List Char} {v : Json}
    (h : readNumber cs = some (.ok (v, rest))) : v.AsRead := by
  simp only [readNumber] at h
  split_ifs at h <;> simp only [Option.some.injEq, Except.ok.injEq, Prod.mk.injEq, reduceCtorEq] at h
  all_goals obtain ⟨rfl, -⟩ := h
  · next hlength _ => exact asRead_int hlength (by rw [Int.natAbs_neg, Int.natAbs_natCast])
  · next hlength _ => exact asRead_int hlength (Int.natAbs_natCast _)
  · trivial

/-- A value is as it is read if what stands in its brackets is. -/
theorem asRead_of_readValue_succ {fuel : ℕ}
    (hitems : ∀ {depth cs items rest}, readItems fuel depth cs = .ok (items, rest) → ∀ v ∈ items, v.AsRead)
    (hmembers : ∀ {depth cs ms rest}, readMembers fuel depth cs = .ok (ms, rest) → ∀ m ∈ ms, m.2.AsRead)
    {depth : ℕ} {cs : List Char} {v : Json} {rest : List Char}
    (h : readValue (fuel + 1) depth cs = .ok (v, rest)) : v.AsRead := by
  -- only an object needs more than the hypotheses, as its names are made unique
  rw [readValue.eq_def] at h
  dsimp only at h
  split at h
  · obtain ⟨r, -, h⟩ := Except.bind_pure_eq_ok_iff.mp h
    obtain ⟨rfl, -⟩ := Prod.mk.inj h
    trivial
  · split at h
    · cases h
    · split at h
      · cases h
        exact everywhere_object.mpr ⟨List.nodup_nil, by simp⟩
      · obtain ⟨r, hr, h⟩ := Except.bind_pure_eq_ok_iff.mp h
        obtain ⟨rfl, -⟩ := Prod.mk.inj h
        exact asRead_ofPairs (hmembers hr)
  · split at h
    · cases h
    · split at h
      · cases h
        exact everywhere_list.mpr (by simp)
      · obtain ⟨r, hr, h⟩ := Except.bind_pure_eq_ok_iff.mp h
        obtain ⟨rfl, -⟩ := Prod.mk.inj h
        exact everywhere_list.mpr (hitems hr)
  -- what is left for `readNumber`
  case h_10 =>
    cases hn : readNumber cs with
    | none => simp [hn] at h
    | some r =>
      rw [hn] at h
      exact asRead_of_readNumber (hn.trans (congrArg some h))
  all_goals
    cases h
    trivial

/-- So are items, if values are. -/
theorem asRead_of_readItems_succ {fuel : ℕ}
    (hvalue : ∀ {depth cs v rest}, readValue fuel depth cs = .ok (v, rest) → v.AsRead)
    (hitems : ∀ {depth cs items rest}, readItems fuel depth cs = .ok (items, rest) → ∀ v ∈ items, v.AsRead)
    {depth : ℕ} {cs : List Char} {items : List Json} {rest : List Char}
    (h : readItems (fuel + 1) depth cs = .ok (items, rest)) : ∀ v ∈ items, v.AsRead := by
  -- a value, and then the end of the list or a comma
  rw [readItems, Except.bind_eq_ok_iff] at h
  obtain ⟨⟨v, after⟩, hv, h⟩ := h
  have hv := hvalue hv
  dsimp only at h
  split at h
  · cases h
    simpa using hv
  · obtain ⟨r, hr, h⟩ := Except.bind_pure_eq_ok_iff.mp h
    obtain ⟨rfl, -⟩ := Prod.mk.inj h
    exact List.forall_mem_cons.mpr ⟨hv, hitems hr⟩
  · cases h

/-- And so are the values of members. -/
theorem asRead_of_readMembers_succ {fuel : ℕ}
    (hvalue : ∀ {depth cs v rest}, readValue fuel depth cs = .ok (v, rest) → v.AsRead)
    (hmembers : ∀ {depth cs ms rest}, readMembers fuel depth cs = .ok (ms, rest) → ∀ m ∈ ms, m.2.AsRead)
    {depth : ℕ} {cs : List Char} {ms : List (Text × Json)} {rest : List Char}
    (h : readMembers (fuel + 1) depth cs = .ok (ms, rest)) : ∀ m ∈ ms, m.2.AsRead := by
  -- a name, a colon and a value, and then as for items
  rw [readMembers.eq_def] at h
  dsimp only at h
  split at h
  · rw [Except.bind_eq_ok_iff] at h
    obtain ⟨⟨n, after⟩, -, h⟩ := h
    dsimp only at h
    split at h
    · rw [Except.bind_eq_ok_iff] at h
      obtain ⟨⟨v, after⟩, hv, h⟩ := h
      have hv := hvalue hv
      dsimp only at h
      split at h
      · cases h
        simpa using hv
      · obtain ⟨r, hr, h⟩ := Except.bind_pure_eq_ok_iff.mp h
        obtain ⟨rfl, -⟩ := Prod.mk.inj h
        exact List.forall_mem_cons.mpr ⟨hv, hmembers hr⟩
      · cases h
    · cases h
  · cases h

/-- What the three readers return for at most `fuel` steps. -/
theorem asRead_of_reading (fuel : ℕ) :
    (∀ {depth cs v rest}, readValue fuel depth cs = .ok (v, rest) → v.AsRead) ∧
    (∀ {depth cs items rest}, readItems fuel depth cs = .ok (items, rest) →
      ∀ v ∈ items, v.AsRead) ∧
    (∀ {depth cs ms rest}, readMembers fuel depth cs = .ok (ms, rest) →
      ∀ m ∈ ms, m.2.AsRead) := by
  induction fuel with
  | zero =>
    refine ⟨?_, ?_, ?_⟩ <;> intro _ _ _ _ h <;> cases h
  | succ fuel ih =>
    obtain ⟨hvalue, hitems, hmembers⟩ := ih
    exact ⟨asRead_of_readValue_succ hitems hmembers, asRead_of_readItems_succ hvalue hitems,
      asRead_of_readMembers_succ hvalue hmembers⟩

theorem asRead_of_read {cs : List Char} {v : Json} (h : read cs = .ok v) : v.AsRead := by
  rw [read] at h
  split at h
  · next hall =>
    cases h
    rw [readAll] at hall
    split at hall
    · cases hall
    · rw [Except.bind_eq_ok_iff] at hall
      obtain ⟨⟨v', rest⟩, hv, hall⟩ := hall
      dsimp only at hall
      split at hall
      · cases hall
        exact (asRead_of_reading _).1 hv
      · cases hall
  all_goals cases h

/-- **No object of a document repeats a name.** -/
theorem proper_of_read {cs : List Char} {v : Json} (h : read cs = .ok v) : v.Proper :=
  (asRead_of_read h).imp (fun _ _ => trivial) fun _ => id

/-- **No integer of a document is too long.** -/
theorem moderate_of_read {cs : List Char} {v : Json} (h : read cs = .ok v) : v.Moderate :=
  (asRead_of_read h).imp (fun _ => id) fun _ _ => trivial

end SchemaGraft.Json
