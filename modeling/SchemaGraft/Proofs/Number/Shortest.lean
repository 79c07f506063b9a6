import SchemaGraft.Proofs.Number.Rounding

/-!
# Shortest Decimals

A finite number is written with the fewest digits that read back to it.  The search tries one digit
after the other, up to seventeen, and falls back on something else when none of these hits.

## Architecture

- **The search**: what `decimalOf?` returns reads back, and it returns something as soon as one of
  the two neighbours of the number reads back.
- **Seventeen digits**: with that many digits the nearer neighbour is close enough.
- **Main result**: `shortestDecimal_readsBack`, so that the fallback is never used.
-/

namespace SchemaGraft.Binary64

/-! ## The Search -/

/-- What the search returns reads back to the number. -/
theorem ofDecimal_of_decimalOf? {x : Binary64} {num den count digits : ℕ} {place exponent : ℤ}
    (h : decimalOf? x num den place count = some (digits, exponent)) :
    ofDecimal false digits exponent = x := by
  simp only [decimalOf?] at h
  split_ifs at h with h1 h2
  · obtain ⟨rfl, rfl⟩ := Prod.mk.inj (Option.some.inj h)
    simp only [Bool.and_eq_true, beq_iff_eq] at h1
    exact h1.1
  · obtain ⟨rfl, rfl⟩ := Prod.mk.inj (Option.some.inj h)
    exact beq_iff_eq.mp h2

/-- The search returns something when one of the two neighbours reads back. -/
theorem decimalOf?_isSome {x : Binary64} {num den count : ℕ} {place e : ℤ}
    (he : e = place - count + 1)
    (h : ofDecimal false (num * 10 ^ (-e).toNat / (den * 10 ^ e.toNat)) e = x ∨
      ofDecimal false (num * 10 ^ (-e).toNat / (den * 10 ^ e.toNat) + 1) e = x) :
    (decimalOf? x num den place count).isSome := by
  simp only [decimalOf?, ← he, tenPow_eq]
  split_ifs with h1 h2
  · rfl
  · rfl
  · -- neither neighbour was taken, so the upper one misses, and then the lower one as well
    rw [beq_iff_eq] at h2
    simp [h2, h.resolve_right h2] at h1

/-! ## Seventeen Digits -/

/-- One of the two multiples of `s` around `q` is at most half of `s` away. -/
theorem near_neighbour {N D : ℕ} (hD : 0 < D) {s q : ℚ} (hs : 0 < s) (hq : q = N / D * s) :
    |((N / D : ℕ) : ℚ) * s - q| ≤ s / 2 ∨ |((N / D + 1 : ℕ) : ℚ) * s - q| ≤ s / 2 := by
  have hD' : (0 : ℚ) < D := by exact_mod_cast hD
  -- the quotient is a whole number and a rest below one; the rest decides which neighbour is near
  have hsplit : (N / D : ℚ) = (N / D : ℕ) + (N % D : ℕ) / D := by
    field_simp
    exact_mod_cast (Nat.div_add_mod N D).symm
  have hrest : ((N % D : ℕ) : ℚ) / D < 1 := by
    rw [div_lt_one hD']
    exact_mod_cast Nat.mod_lt N hD
  have hrest0 : (0 : ℚ) ≤ ((N % D : ℕ) : ℚ) / D := by positivity
  rw [hq, hsplit]
  generalize ((N % D : ℕ) : ℚ) / D = r at *
  generalize (N / D : ℕ) = b at *
  rcases le_total r (1 / 2) with hr | hr
  · left
    rw [show (b : ℚ) * s - (b + r) * s = -(r * s) by ring, abs_neg, abs_of_nonneg (by positivity)]
    nlinarith
  · right
    push_cast
    rw [show ((b : ℚ) + 1) * s - (b + r) * s = (1 - r) * s by ring,
      abs_of_nonneg (by nlinarith)]
    nlinarith

/-- The exact value of a finite number without its sign, as `ratio` gives it. -/
theorem ratio_cast (m : ℕ) (e : ℤ) :
    ((ratio m e).1 / (ratio m e).2 : ℚ) = m * 2 ^ e := by
  simp only [ratio, twoPow_eq]
  push_cast
  rw [← pow_toNat_div two_ne_zero e]
  ring

/-- **Seventeen digits are enough**: they leave a relative error below `2⁻⁵⁴`. -/
theorem decimalOf?_seventeen {m : ℕ} {e : ℤ} (hm : 0 < m) (hfits : Fits m e) :
    (decimalOf? (.finite false m e hfits) (ratio m e).1 (ratio m e).2
      (floorLog10 (ratio m e).1 (ratio m e).2) 17).isSome := by
  have hnum : 0 < (ratio m e).1 := Nat.mul_pos hm (twoPow_pos e)
  have hden : 0 < (ratio m e).2 := twoPow_pos _
  have hv : (0 : ℚ) < m * 2 ^ e := by positivity
  rw [floorLog10_eq hnum hden, ratio_cast]
  -- the unit of the last digit is at most a part in `10 ^ 16` of the number
  obtain ⟨x, hx⟩ : ∃ x, x = Int.log 10 (m * 2 ^ e : ℚ) - (17 : ℕ) + 1 := ⟨_, rfl⟩
  have hunit : (10 : ℚ) ^ x * 10 ^ 16 ≤ m * 2 ^ e := by
    calc (10 : ℚ) ^ x * 10 ^ 16 = 10 ^ (Int.log 10 (m * 2 ^ e : ℚ)) := by
          rw [← zpow_natCast, ← zpow_add₀ (by norm_num), hx]
          congr 1
          push_cast
          ring
      _ ≤ m * 2 ^ e := by exact_mod_cast Int.zpow_log_le_self (by norm_num) hv
  have hclose : ∀ y : ℚ, |y - m * 2 ^ e| ≤ 10 ^ x / 2 → |y - m * 2 ^ e| < m * 2 ^ e / 2 ^ 54 := by
    intro y hy
    apply lt_of_le_of_lt hy
    norm_num at hunit ⊢
    linarith
  apply decimalOf?_isSome hx
  have hquotient : (m * 2 ^ e : ℚ) = ((ratio m e).1 * 10 ^ (-x).toNat : ℕ) /
      ((ratio m e).2 * 10 ^ x.toNat : ℕ) * 10 ^ x := by
    rw [← ratio_cast, ← pow_toNat_div (by norm_num : (10 : ℚ) ≠ 0) x]
    push_cast
    have : ((ratio m e).2 : ℚ) ≠ 0 := by exact_mod_cast hden.ne'
    field_simp
  rcases near_neighbour (Nat.mul_pos hden (by positivity)) (by positivity) hquotient with h | h
  · exact .inl (ofDecimal_of_near false hm hfits (hclose _ h))
  · exact .inr (ofDecimal_of_near false hm hfits (hclose _ h))

/-! ## The Shortest Decimal -/

/-- **The shortest decimal of a positive number reads back to it.** -/
theorem shortestDecimal_readsBack {m : ℕ} {e : ℤ} (hm : 0 < m) (hfits : Fits m e) :
    ofDecimal false (shortestDecimal m e hfits).1 (shortestDecimal m e hfits).2 =
      .finite false m e hfits := by
  simp only [shortestDecimal]
  have hsome : ((List.range 17).findSome? fun n =>
      decimalOf? (.finite false m e hfits) (ratio m e).1 (ratio m e).2
        (floorLog10 (ratio m e).1 (ratio m e).2) (n + 1)).isSome := by
    rw [List.findSome?_isSome_iff]
    exact ⟨16, by simp, decimalOf?_seventeen hm hfits⟩
  obtain ⟨r, hr⟩ := Option.isSome_iff_exists.mp hsome
  rw [hr]
  obtain ⟨n, -, hn⟩ := List.exists_of_findSome?_eq_some hr
  exact ofDecimal_of_decimalOf? hn

/-- Zeros at the end of the digits are taken away and counted in the exponent. -/
theorem trimZeros_eq (fuel digits : ℕ) (exponent : ℤ) :
    ∃ k : ℕ, digits = (trimZeros fuel digits exponent).1 * 10 ^ k ∧
      (trimZeros fuel digits exponent).2 = exponent + k := by
  -- on the fuel, of which each zero takes one
  induction fuel generalizing digits exponent with
  | zero => exact ⟨0, by simp [trimZeros]⟩
  | succ fuel ih =>
    rw [trimZeros]
    split
    · next h =>
      obtain ⟨k, hdigits, hexponent⟩ := ih (digits / 10) (exponent + 1)
      refine ⟨k + 1, ?_, ?_⟩
      · rw [pow_succ, ← mul_assoc, ← hdigits]
        omega
      · rw [hexponent]
        push_cast
        ring
    · exact ⟨0, by simp⟩

/-- The digits that are written, without zeros at their end, read back as well. -/
theorem trimZeros_readsBack {m : ℕ} {e : ℤ} (hm : 0 < m) (hfits : Fits m e) (fuel : ℕ) :
    let (digits, exponent) := shortestDecimal m e hfits
    let (digits, exponent) := trimZeros fuel digits exponent
    digits ≠ 0 ∧ ofDecimal false digits exponent = .finite false m e hfits := by
  have hread := shortestDecimal_readsBack hm hfits
  dsimp only
  generalize shortestDecimal m e hfits = d at *
  obtain ⟨k, hdigits, hexponent⟩ := trimZeros_eq fuel d.1 d.2
  -- leaving zeros out shifts the digits, which leaves the number as it is
  have hshift := ofDecimal_shift false (trimZeros fuel d.1 d.2).1 (trimZeros fuel d.1 d.2).2 k
  rw [← hdigits, hexponent, add_sub_cancel_right, hread, ← hexponent] at hshift
  refine ⟨?_, hshift.symm⟩
  intro hzero
  rw [hzero] at hshift
  simp only [ofDecimal, if_true, zero, finite.injEq] at hshift
  omega

end SchemaGraft.Binary64
