import Mathlib.Data.Int.Log
import Mathlib.Tactic
import SchemaGraft.Number.Shortest

/-!
# Rounding of Quotients

`Binary64.ofRatio` rounds a quotient of natural numbers, and works on numerator and denominator
all the way.  This file says what it does in terms of the rational number that the quotient is.

## Architecture

- **Logarithms**: `floorLog2` and `floorLog10` are the integer logarithm of the quotient.
- **Rounding**: `roundQuotient` depends on the quotient only, and gives the integer that is nearer
  than one half.
- **Main results**: `ofRatio_scale` (a common factor does not matter), `ofRatio_of_near` (what is
  within `2⁻⁵⁴` of a number, relative to it, is rounded to it), and `ofDecimal_shift` (zeros at the
  end of the digits may go into the exponent).
-/

namespace SchemaGraft.Binary64

/-! ## Powers with an Integer as Exponent -/

/-- A power whose exponent is an integer, as the quotient that numerator and denominator carry. -/
theorem pow_toNat_div {b : ℚ} (hb : b ≠ 0) (e : ℤ) : b ^ e.toNat / b ^ (-e).toNat = b ^ e := by
  rw [← zpow_natCast, ← zpow_natCast, ← zpow_sub₀ hb]
  congr 1
  omega

/-- The comparison that the logarithms make compares the quotient with a power. -/
theorem scaled_lt_iff {b num den : ℕ} (hb : 0 < b) (hden : 0 < den) (l : ℤ) :
    num * b ^ (-l).toNat < den * b ^ l.toNat ↔ (num / den : ℚ) < (b : ℚ) ^ l := by
  have hb' : (b : ℚ) ≠ 0 := by positivity
  rw [← pow_toNat_div hb', div_lt_div_iff₀ (by positivity) (by positivity)]
  norm_cast
  rw [mul_comm den]

/-! ## Logarithms -/

/-- The integer logarithm is the exponent of the largest power below. -/
theorem log_eq_of_mem {b : ℕ} (hb : 1 < b) {q : ℚ} {l : ℤ} (hlo : (b : ℚ) ^ l ≤ q)
    (hhi : q < (b : ℚ) ^ (l + 1)) : Int.log b q = l := by
  have hq : 0 < q := lt_of_lt_of_le (by positivity) hlo
  apply le_antisymm
  · have := (Int.lt_zpow_iff_log_lt hb hq).mp hhi
    omega
  · exact (Int.zpow_le_iff_le_log hb hq).mp hlo

/-- The logarithm of a quotient differs from the difference of the logarithms by at most one. -/
theorem log_div {b num den : ℕ} (hb : 1 < b) (hnum : 0 < num) (hden : 0 < den) :
    Int.log b (num / den : ℚ) =
      let l : ℤ := (Nat.log b num : ℤ) - (Nat.log b den : ℤ)
      if num * b ^ (-l).toNat < den * b ^ l.toNat then l - 1 else l := by
  have hb0 : (b : ℚ) ≠ 0 := by positivity
  have hden' : (0 : ℚ) < den := by exact_mod_cast hden
  have hnumLo : (b : ℚ) ^ (Nat.log b num : ℤ) ≤ num := by
    exact_mod_cast Nat.pow_log_le_self b hnum.ne'
  have hnumHi : (num : ℚ) < (b : ℚ) ^ ((Nat.log b num : ℤ) + 1) := by
    exact_mod_cast Nat.lt_pow_succ_log_self hb num
  have hdenLo : (b : ℚ) ^ (Nat.log b den : ℤ) ≤ den := by
    exact_mod_cast Nat.pow_log_le_self b hden.ne'
  have hdenHi : (den : ℚ) < (b : ℚ) ^ ((Nat.log b den : ℤ) + 1) := by
    exact_mod_cast Nat.lt_pow_succ_log_self hb den
  generalize (Nat.log b num : ℤ) = ln at *
  generalize (Nat.log b den : ℤ) = ld at *
  -- the quotient lies between the powers for `ln - ld - 1` and `ln - ld + 1`
  have hlo : (b : ℚ) ^ (ln - ld - 1) ≤ num / den := by
    rw [le_div_iff₀ hden']
    calc (b : ℚ) ^ (ln - ld - 1) * den
        ≤ (b : ℚ) ^ (ln - ld - 1) * (b : ℚ) ^ (ld + 1) := by gcongr
      _ = (b : ℚ) ^ ln := by rw [← zpow_add₀ hb0]; congr 1; ring
      _ ≤ num := hnumLo
  have hhi : (num / den : ℚ) < (b : ℚ) ^ (ln - ld + 1) := by
    rw [div_lt_iff₀ hden']
    calc (num : ℚ) < (b : ℚ) ^ (ln + 1) := hnumHi
      _ = (b : ℚ) ^ (ln - ld + 1) * (b : ℚ) ^ ld := by rw [← zpow_add₀ hb0]; congr 1; ring
      _ ≤ (b : ℚ) ^ (ln - ld + 1) * den := by gcongr
  simp only [scaled_lt_iff (by omega : 0 < b) hden]
  split
  · next h => exact log_eq_of_mem hb hlo (by simpa using h)
  · next h => exact log_eq_of_mem hb (le_of_not_gt h) hhi

theorem twoPow_eq (e : ℤ) : twoPow e = 2 ^ e.toNat := rfl

theorem tenPow_eq (e : ℤ) : tenPow e = 10 ^ e.toNat := rfl

/-- `floorLog2` is the integer part of the binary logarithm. -/
theorem floorLog2_eq {num den : ℕ} (hnum : 0 < num) (hden : 0 < den) :
    floorLog2 num den = Int.log 2 (num / den : ℚ) := by
  rw [log_div one_lt_two hnum hden]
  simp only [floorLog2, twoPow_eq, Nat.log2_eq_log_two]

/-- A positive number has one digit more than its decimal logarithm. -/
theorem digitCount_eq (n : ℕ) : digitCount n = Nat.log 10 n + 1 := by
  induction n using Nat.strong_induction_on with
  | _ n ih =>
    rw [digitCount]
    split
    · next h => rw [Nat.log_of_lt h]
    · next h =>
      rw [ih (n / 10) (by omega), ← Nat.log_of_one_lt_of_le (by norm_num) (by omega : 10 ≤ n)]

/-- `floorLog10` is the integer part of the decimal logarithm. -/
theorem floorLog10_eq {num den : ℕ} (hnum : 0 < num) (hden : 0 < den) :
    floorLog10 num den = Int.log 10 (num / den : ℚ) := by
  rw [log_div (by norm_num : 1 < 10) hnum hden]
  have hdiff : (digitCount num : ℤ) - digitCount den = (Nat.log 10 num : ℤ) - Nat.log 10 den := by
    rw [digitCount_eq, digitCount_eq]
    push_cast
    ring
  simp only [floorLog10, tenPow_eq, hdiff]

/-! ## Rounding to an Integer -/

/-- A common factor of numerator and denominator does not matter. -/
theorem roundQuotient_scale {k : ℕ} (hk : 0 < k) (num den : ℕ) :
    roundQuotient (k * num) (k * den) = roundQuotient num den := by
  simp only [roundQuotient, Nat.mul_div_mul_left _ _ hk, Nat.mul_mod_mul_left]
  have hlt : k * den < 2 * (k * (num % den)) ↔ den < 2 * (num % den) := by
    rw [show 2 * (k * (num % den)) = k * (2 * (num % den)) by ring]
    exact Nat.mul_lt_mul_left hk
  have heq : 2 * (k * (num % den)) = k * den ↔ 2 * (num % den) = den := by
    rw [show 2 * (k * (num % den)) = k * (2 * (num % den)) by ring]
    exact Nat.mul_right_inj hk.ne'
  simp only [hlt, heq]

/-- An integer nearer than one half is the one that is rounded to. -/
theorem roundQuotient_of_near {num den k : ℕ} (hden : 0 < den)
    (h : |(num / den : ℚ) - k| < 1 / 2) : roundQuotient num den = k := by
  have hden' : (0 : ℚ) < den := by exact_mod_cast hden
  -- without fractions: `(2 k - 1) den < 2 num < (2 k + 1) den`
  obtain ⟨hlo, hhi⟩ := abs_lt.mp h
  have hlo' : 2 * k * den < 2 * num + den := by
    have : (k : ℚ) - 1 / 2 < num / den := by linarith
    rw [lt_div_iff₀ hden'] at this
    have : (2 * k * den : ℚ) < 2 * num + den := by linarith
    exact_mod_cast this
  have hhi' : 2 * num < 2 * k * den + den := by
    have : (num / den : ℚ) < k + 1 / 2 := by linarith
    rw [div_lt_iff₀ hden'] at this
    have : (2 * num : ℚ) < 2 * k * den + den := by linarith
    exact_mod_cast this
  have hsplit : den * (num / den) + num % den = num := Nat.div_add_mod num den
  have hrest : num % den < den := Nat.mod_lt num hden
  simp only [roundQuotient]
  generalize num / den = q at *
  generalize num % den = r at *
  subst hsplit
  -- the integer part is `k`, or one less with more than half a unit left
  have hq : q = k ∨ q + 1 = k := by
    have h1 : q < k + 1 := by
      by_contra hcon
      have : (k + 1) * den ≤ q * den := Nat.mul_le_mul_right den (by omega)
      nlinarith
    have h2 : k < q + 2 := by
      by_contra hcon
      have : (q + 2) * den ≤ k * den := Nat.mul_le_mul_right den (by omega)
      nlinarith
    omega
  rcases hq with rfl | rfl
  · have : 2 * r < den := by nlinarith
    rw [if_neg (by omega)]
  · have : den < 2 * r := by nlinarith
    rw [if_pos (by omega)]

/-! ## Rounding to a Number -/

theorem twoPow_pos (e : ℤ) : 0 < twoPow e :=
  Nat.pow_pos two_pos

theorem fits_iff {m : ℕ} {e : ℤ} :
    Fits m e ↔ m < 2 ^ 53 ∧ minExponent ≤ e ∧ e ≤ maxExponent ∧ (2 ^ 52 ≤ m ∨ e = minExponent) :=
  Iff.rfl

/-- The quotient that `ofRatio` rounds once the exponent is chosen. -/
theorem scaled_quotient (num den : ℕ) (e : ℤ) :
    ((num * twoPow (-e) : ℕ) / (den * twoPow e : ℕ) : ℚ) = num / den / 2 ^ e := by
  rw [← pow_toNat_div (two_ne_zero) e]
  push_cast [twoPow_eq]
  have h2 : (2 : ℚ) ≠ 0 := two_ne_zero
  field_simp

/-- `ofRatio` in terms of the logarithm of the quotient. -/
theorem ofRatio_eq (negative : Bool) {num den : ℕ} (hnum : 0 < num) (hden : 0 < den) :
    ofRatio negative num den =
      let e := max minExponent (Int.log 2 (num / den : ℚ) - 52)
      let m := roundQuotient (num * twoPow (-e)) (den * twoPow e)
      let (m, e) := if m = 2 ^ 53 then (2 ^ 52, e + 1) else (m, e)
      if h : Fits m e then .finite negative m e h else .infinite negative := by
  rw [ofRatio, if_neg hnum.ne', floorLog2_eq hnum hden]
  rfl

/-- A common factor of numerator and denominator does not matter. -/
theorem ofRatio_scale (negative : Bool) {k num den : ℕ} (hk : 0 < k) (hden : 0 < den) :
    ofRatio negative (k * num) (k * den) = ofRatio negative num den := by
  rcases Nat.eq_zero_or_pos num with rfl | hnum
  · simp [ofRatio]
  · rw [ofRatio_eq negative (Nat.mul_pos hk hnum) (Nat.mul_pos hk hden),
      ofRatio_eq negative hnum hden]
    have hk' : (k : ℚ) ≠ 0 := by exact_mod_cast hk.ne'
    have hq : ((k * num : ℕ) / (k * den : ℕ) : ℚ) = num / den := by
      push_cast
      exact mul_div_mul_left _ _ hk'
    simp only [hq, mul_assoc, roundQuotient_scale hk]

/-- What the chosen exponent and the rounded mantissa have to be for a number to come out. -/
theorem ofRatio_of_round (negative : Bool) {num den m : ℕ} {e : ℤ} (hnum : 0 < num)
    (hden : 0 < den) (hfits : Fits m e)
    (hexp : max minExponent (Int.log 2 (num / den : ℚ) - 52) = e)
    (hnear : |(num / den / 2 ^ e : ℚ) - m| < 1 / 2) :
    ofRatio negative num den = .finite negative m e hfits := by
  have hm : roundQuotient (num * twoPow (-e)) (den * twoPow e) = m := by
    apply roundQuotient_of_near (Nat.mul_pos hden (twoPow_pos e))
    rwa [scaled_quotient]
  have hcarry : m ≠ 2 ^ 53 := by have := hfits.1; omega
  rw [ofRatio_eq negative hnum hden]
  simp only [hexp, hm, if_neg hcarry, dif_pos hfits]

/-- The same when rounding carries into the next binary place. -/
theorem ofRatio_of_carry (negative : Bool) {num den : ℕ} {e : ℤ} (hnum : 0 < num)
    (hden : 0 < den) (hfits : Fits (2 ^ 52) (e + 1))
    (hexp : max minExponent (Int.log 2 (num / den : ℚ) - 52) = e)
    (hnear : |(num / den / 2 ^ e : ℚ) - (2 ^ 53 : ℕ)| < 1 / 2) :
    ofRatio negative num den = .finite negative (2 ^ 52) (e + 1) hfits := by
  have hm : roundQuotient (num * twoPow (-e)) (den * twoPow e) = 2 ^ 53 := by
    apply roundQuotient_of_near (Nat.mul_pos hden (twoPow_pos e))
    rwa [scaled_quotient]
  rw [ofRatio_eq negative hnum hden]
  simp only [hexp, hm, if_true, dif_pos hfits]

/-- **What is close to a number is rounded to it**: a relative distance below `2⁻⁵⁴` is less than
half of the gap to either neighbour. -/
theorem ofRatio_of_near (negative : Bool) {num den m : ℕ} {e : ℤ} (hden : 0 < den) (hm : 0 < m)
    (hfits : Fits m e)
    (hnear : |(num / den : ℚ) - m * 2 ^ e| < m * 2 ^ e / 2 ^ 54) :
    ofRatio negative num den = .finite negative m e hfits := by
  have hu : (0 : ℚ) < 2 ^ e := by positivity
  obtain ⟨p, hp⟩ : ∃ p : ℚ, (num / den : ℚ) = p * 2 ^ e := ⟨num / den / 2 ^ e, by field_simp⟩
  -- in units of `2 ^ e` the quotient is `p`, and `p` is close to `m`
  have hpm : |p - m| < m / 2 ^ 54 := by
    rw [hp, ← sub_mul, abs_mul, abs_of_pos hu, mul_div_right_comm] at hnear
    exact lt_of_mul_lt_mul_right hnear hu.le
  obtain ⟨hlo, hhi⟩ := abs_lt.mp hpm
  have hm53 : (m : ℚ) + 1 ≤ 2 ^ 53 := by exact_mod_cast (fits_iff.mp hfits).1
  have hm1 : (1 : ℚ) ≤ m := by exact_mod_cast hm
  have hppos : 0 < p := by linarith
  have hnum : 0 < num := by
    rcases Nat.eq_zero_or_pos num with rfl | h
    · have : p * 2 ^ e = 0 := by simpa using hp.symm
      have := mul_pos hppos hu
      linarith
    · exact h
  have hqdiv : (num / den / 2 ^ e : ℚ) = p := by rw [hp]; field_simp
  have hpow (k : ℤ) : (2 : ℚ) ^ (k + e) = 2 ^ k * 2 ^ e := zpow_add₀ two_ne_zero k e
  have hupper : (num / den : ℚ) < 2 ^ (53 + e) := by
    rw [hp, hpow]
    gcongr
    norm_num at hm53 ⊢
    linarith
  by_cases hcase : (2 : ℚ) ^ 52 ≤ p ∨ e = minExponent
  · -- the exponent is that of the number itself
    apply ofRatio_of_round negative hnum hden hfits
    · rcases hcase with hge | hmin
      · have hlog : Int.log 2 (num / den : ℚ) = 52 + e := by
          apply log_eq_of_mem one_lt_two
          · rw [hp]
            push_cast
            rw [hpow]
            gcongr
            exact_mod_cast hge
          · rw [show (52 + e + 1 : ℤ) = 53 + e by ring]
            exact_mod_cast hupper
        have := hfits.2.1
        omega
      · have : Int.log 2 (num / den : ℚ) < 53 + e :=
          (Int.lt_zpow_iff_log_lt one_lt_two (by positivity)).mp (by exact_mod_cast hupper)
        omega
    · rw [hqdiv]
      have : (m : ℚ) / 2 ^ 54 < 1 / 2 := by norm_num at hm53 ⊢; linarith
      exact hpm.trans this
  · -- just below a power of two the exponent is one less, and rounding carries
    obtain ⟨hlt, hne⟩ : p < 2 ^ 52 ∧ e ≠ minExponent := by rwa [not_or, not_le] at hcase
    norm_num at hlt
    have hm52 : m = 2 ^ 52 := by
      have hge : 2 ^ 52 ≤ m := hfits.2.2.2.resolve_right hne
      have hle : (m : ℚ) < 4503599627370497 := by norm_num at hlo; linarith
      have hle' : m < 4503599627370497 := by exact_mod_cast hle
      omega
    subst hm52
    obtain ⟨f, rfl⟩ : ∃ f, e = f + 1 := ⟨e - 1, by ring⟩
    have hmin := hfits.2.1
    have hhalf : (2 : ℚ) ^ (f + 1) = 2 * 2 ^ f := by rw [zpow_add_one₀ two_ne_zero]; ring
    have hf : (0 : ℚ) < 2 ^ f := by positivity
    have hqdiv' : (num / den / 2 ^ f : ℚ) = 2 * p := by
      rw [hp, hhalf]
      field_simp
    apply ofRatio_of_carry negative hnum hden hfits
    · have hlog : Int.log 2 (num / den : ℚ) = 51 + (f + 1) := by
        apply log_eq_of_mem one_lt_two
        · rw [hp]
          push_cast
          rw [hpow]
          gcongr
          norm_num at hlo ⊢
          linarith
        · rw [hp, show (51 + (f + 1) + 1 : ℤ) = 52 + (f + 1) by ring]
          push_cast
          rw [hpow]
          gcongr
          norm_num
          exact hlt
      omega
    · rw [hqdiv', abs_lt]
      push_cast at hlo hhi ⊢
      norm_num at hlo hhi ⊢
      constructor <;> linarith

/-! ## Decimals -/

/-- The sign goes through rounding untouched. -/
theorem ofRatio_true (num den : ℕ) : ofRatio true num den = (ofRatio false num den).negate := by
  unfold ofRatio
  dsimp only
  split_ifs <;> rfl

/-- The sign goes through reading a decimal untouched. -/
theorem ofDecimal_true (digits : ℕ) (exponent : ℤ) :
    ofDecimal true digits exponent = (ofDecimal false digits exponent).negate := by
  unfold ofDecimal
  dsimp only
  split_ifs
  · rfl
  · rfl
  · rfl
  · exact ofRatio_true _ _

/-- A number is read with either sign from the digits that are read as it without one. -/
theorem ofDecimal_sign {digits m : ℕ} {exponent e : ℤ} {hfits : Fits m e} (negative : Bool)
    (h : ofDecimal false digits exponent = .finite false m e hfits) :
    ofDecimal negative digits exponent = .finite negative m e hfits := by
  cases negative with
  | false => exact h
  | true => rw [ofDecimal_true, h]; rfl

theorem digitCount_mul_ten {digits : ℕ} (h : digits ≠ 0) :
    digitCount (digits * 10) = digitCount digits + 1 := by
  rw [digitCount_eq, digitCount_eq, Nat.log_mul_base (by norm_num) h]

/-- A zero at the end of the digits may go into the exponent. -/
theorem ofDecimal_mul_ten (negative : Bool) (digits : ℕ) (exponent : ℤ) :
    ofDecimal negative (digits * 10) (exponent - 1) = ofDecimal negative digits exponent := by
  rcases eq_or_ne digits 0 with rfl | h
  · simp [ofDecimal]
  · have hmagnitude : exponent - 1 + (digitCount digits + 1 : ℕ) =
        exponent + digitCount digits := by
      push_cast
      ring
    have hratio : ofRatio negative (digits * 10 * 10 ^ (exponent - 1).toNat)
        (10 ^ (-(exponent - 1)).toNat) =
          ofRatio negative (digits * 10 ^ exponent.toNat) (10 ^ (-exponent).toNat) := by
      by_cases hpos : 0 < exponent
      · -- the zero comes out of the power in the numerator
        obtain ⟨n, rfl⟩ : ∃ n : ℕ, exponent = n + 1 := ⟨(exponent - 1).toNat, by omega⟩
        have h1 : (n + 1 - 1 : ℤ).toNat = n := by omega
        have h2 : (n + 1 : ℤ).toNat = n + 1 := by omega
        have h3 : (-(n + 1 - 1) : ℤ).toNat = 0 := by omega
        have h4 : (-(n + 1) : ℤ).toNat = 0 := by omega
        rw [h1, h2, h3, h4, pow_succ', mul_assoc]
      · -- the zero is a common factor
        obtain ⟨n, rfl⟩ : ∃ n : ℕ, exponent = -n := ⟨(-exponent).toNat, by omega⟩
        have h1 : (-(n : ℤ) - 1).toNat = 0 := by omega
        have h2 : (-(n : ℤ)).toNat = 0 := by omega
        have h3 : (-(-(n : ℤ) - 1)).toNat = n + 1 := by omega
        have h4 : (-(-(n : ℤ))).toNat = n := by omega
        rw [h1, h2, h3, h4, pow_zero, mul_one, mul_one, pow_succ', mul_comm digits]
        exact ofRatio_scale negative (by norm_num) (by positivity)
    have h10 : digits * 10 ≠ 0 := by omega
    simp only [ofDecimal, if_neg h, if_neg h10, digitCount_mul_ten h, hmagnitude, tenPow_eq,
      hratio]

/-- **Zeros at the end of the digits may go into the exponent.** -/
theorem ofDecimal_shift (negative : Bool) (digits : ℕ) (exponent : ℤ) (k : ℕ) :
    ofDecimal negative (digits * 10 ^ k) (exponent - k) = ofDecimal negative digits exponent := by
  induction k with
  | zero => simp
  | succ k ih =>
    rw [pow_succ, ← mul_assoc, show exponent - ((k + 1 : ℕ) : ℤ) = exponent - k - 1 by push_cast; ring,
      ofDecimal_mul_ten, ih]

/-- The exponent of the first digit, counted from one, bounds a decimal from both sides. -/
theorem decimal_bounds {digits : ℕ} (h : digits ≠ 0) (exponent : ℤ) :
    (10 : ℚ) ^ (exponent + digitCount digits - 1) ≤ digits * 10 ^ exponent ∧
      (digits * 10 ^ exponent : ℚ) < 10 ^ (exponent + digitCount digits) := by
  have hten : (10 : ℚ) ≠ 0 := by norm_num
  -- the number of digits is one more than the logarithm
  have hlo : (10 : ℚ) ^ Nat.log 10 digits ≤ digits := by
    exact_mod_cast Nat.pow_log_le_self 10 h
  have hhi : (digits : ℚ) < 10 ^ (Nat.log 10 digits + 1) := by
    exact_mod_cast Nat.lt_pow_succ_log_self (by norm_num) digits
  rw [digitCount_eq]
  constructor
  · rw [show exponent + (Nat.log 10 digits + 1 : ℕ) - 1 = (Nat.log 10 digits : ℤ) + exponent by
      push_cast; ring, zpow_add₀ hten, zpow_natCast]
    gcongr
  · rw [add_comm, zpow_add₀ hten, zpow_natCast]
    gcongr

/-- Decimals of a greater magnitude lie above every finite number. -/
theorem two_zpow_le_ten_zpow : (2 : ℚ) ^ (1025 : ℤ) ≤ 10 ^ (310 : ℤ) := by
  have h : 2 ^ 1025 ≤ 10 ^ 310 := by decide +kernel
  rw [zpow_ofNat, zpow_ofNat]
  exact_mod_cast h

/-- Decimals of a smaller magnitude lie below half of every positive number. -/
theorem ten_zpow_le_two_zpow : (10 : ℚ) ^ (-330 : ℤ) ≤ 2 ^ (-1075 : ℤ) := by
  have h : 2 ^ 1075 ≤ 10 ^ 330 := by decide +kernel
  rw [zpow_neg, zpow_neg, zpow_ofNat, zpow_ofNat]
  apply inv_anti₀ (by positivity)
  exact_mod_cast h

/-- A decimal that is close to a number reads as that number. -/
theorem ofDecimal_of_near (negative : Bool) {digits m : ℕ} {exponent e : ℤ} (hm : 0 < m)
    (hfits : Fits m e)
    (hnear : |(digits * 10 ^ exponent : ℚ) - m * 2 ^ e| < m * 2 ^ e / 2 ^ 54) :
    ofDecimal negative digits exponent = .finite negative m e hfits := by
  have hm1 : (1 : ℚ) ≤ m := by exact_mod_cast hm
  have hm53 : (m : ℚ) ≤ 2 ^ 53 := by exact_mod_cast (fits_iff.mp hfits).1.le
  have hu : (0 : ℚ) < 2 ^ e := by positivity
  have hv : (0 : ℚ) < m * 2 ^ e := by positivity
  obtain ⟨hlo, hhi⟩ := abs_lt.mp hnear
  -- the decimal is within a factor of two of the number, and so far from both limits
  have hlower : (2 : ℚ) ^ (-1075 : ℤ) < digits * 10 ^ exponent := by
    calc (2 : ℚ) ^ (-1075 : ℤ) = 1 * 2 ^ (-1074 : ℤ) / 2 := by
          rw [show (-1075 : ℤ) = -1074 - 1 by norm_num, zpow_sub_one₀ two_ne_zero]
          ring
      _ ≤ m * 2 ^ e / 2 := by
        gcongr
        · norm_num
        · exact hfits.2.1
      _ < digits * 10 ^ exponent := by norm_num at hlo; linarith
  have hupper : (digits * 10 ^ exponent : ℚ) < 2 ^ (1025 : ℤ) := by
    calc (digits * 10 ^ exponent : ℚ) < m * 2 ^ e * 2 := by norm_num at hhi; linarith
      _ ≤ 2 ^ 53 * 2 ^ (971 : ℤ) * 2 := by
        gcongr
        · norm_num
        · exact hfits.2.2.1
      _ = 2 ^ (1025 : ℤ) := by
        rw [show (1025 : ℤ) = (53 : ℕ) + 971 + 1 by norm_num, zpow_add_one₀ two_ne_zero,
          zpow_add₀ two_ne_zero, zpow_natCast]
  have hd : digits ≠ 0 := by
    rintro rfl
    have : (0 : ℚ) < 2 ^ (-1075 : ℤ) := by positivity
    simp only [Nat.cast_zero, zero_mul] at hlower
    linarith
  obtain ⟨hboundLo, hboundHi⟩ := decimal_bounds hd exponent
  have hnotLarge : ¬ 310 < exponent + digitCount digits := by
    intro hcon
    have : (10 : ℚ) ^ (310 : ℤ) ≤ 10 ^ (exponent + digitCount digits - 1) :=
      zpow_le_zpow_right₀ (by norm_num) (by omega)
    exact lt_irrefl _ (hupper.trans_le (two_zpow_le_ten_zpow.trans (this.trans hboundLo)))
  have hnotSmall : ¬ exponent + digitCount digits < -330 := by
    intro hcon
    have : (10 : ℚ) ^ (exponent + digitCount digits) ≤ 10 ^ (-330 : ℤ) :=
      zpow_le_zpow_right₀ (by norm_num) (by omega)
    exact lt_irrefl _ (hlower.trans (hboundHi.trans_le (this.trans ten_zpow_le_two_zpow)))
  rw [ofDecimal, if_neg hd]
  simp only [if_neg hnotLarge, if_neg hnotSmall, tenPow_eq]
  apply ofRatio_of_near negative (by positivity) hm hfits
  have hquotient : ((digits * 10 ^ exponent.toNat : ℕ) / (10 ^ (-exponent).toNat : ℕ) : ℚ) =
      digits * 10 ^ exponent := by
    rw [← pow_toNat_div (by norm_num : (10 : ℚ) ≠ 0) exponent]
    push_cast
    ring
  rwa [hquotient]

end SchemaGraft.Binary64
