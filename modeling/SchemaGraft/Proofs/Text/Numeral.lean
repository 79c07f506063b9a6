import Mathlib.Tactic
import SchemaGraft.Text.Digits

/-!
# Numerals Read Back

Every numeral that `Digits` writes is read back by `Digits`.

## Architecture

- **Digits**: `digitChar` and its two readers, `decimal?` and `hex?`.
- **Values**: what a list of digits denotes, piece by piece.
- **Main results**: `value_ofNat`, `ofNat_isDecimal` (a numeral has digits only),
  `head_ofNat_ne_zero` (it has no leading zero) and `length_ofNat_le`.
-/

namespace SchemaGraft.Digits

/-! ## Digits -/

theorem decimal?_digitChar {d : ℕ} (h : d < 10) : decimal? (digitChar d) = some d := by
  interval_cases d <;> rfl

theorem isDecimal_digitChar {d : ℕ} (h : d < 10) : isDecimal (digitChar d) = true := by
  interval_cases d <;> rfl

theorem digitChar_ne_zero {d : ℕ} (h : d < 10) (h0 : d ≠ 0) : digitChar d ≠ '0' := by
  interval_cases d
  · exact absurd rfl h0
  all_goals decide

theorem hex?_digitChar {d : ℕ} (h : d < 16) : hex? (digitChar d) = some d := by
  interval_cases d <;> rfl

/-! ## Values -/

@[simp] theorem value_nil : value [] = 0 := rfl

/-- Digits in front count for as many places as digits follow. -/
theorem value_append (a b : List Char) : value (a ++ b) = value a * 10 ^ b.length + value b := by
  -- the digits in front are counted as often as there are places behind them
  have hstart (n : ℕ) : b.foldl (fun n c => n * 10 + (decimal? c).getD 0) n =
      n * 10 ^ b.length + b.foldl (fun n c => n * 10 + (decimal? c).getD 0) 0 := by
    induction b generalizing n with
    | nil => simp
    | cons c b ih =>
      simp only [List.foldl_cons, List.length_cons]
      rw [ih, ih (0 * 10 + _)]
      ring
  simp only [value, valueIn, List.foldl_append]
  exact hstart _

theorem getD_decimal?_lt (c : Char) : (decimal? c).getD 0 < 10 := by
  rw [decimal?]
  split
  · next h =>
    have hle : c.toNat ≤ '9'.toNat := h.2
    have hnine : '9'.toNat = 0x39 := rfl
    rw [Option.getD_some]
    omega
  · decide

/-- A numeral denotes a number of at most as many digits. -/
theorem value_lt (cs : List Char) : value cs < 10 ^ cs.length := by
  induction cs with
  | nil => decide
  | cons c cs ih =>
    have hc : value [c] < 10 := by simpa [value, valueIn] using getD_decimal?_lt c
    rw [← List.singleton_append, value_append, List.length_append, List.length_singleton, pow_add]
    have hle : value [c] * 10 ^ cs.length ≤ 9 * 10 ^ cs.length :=
      Nat.mul_le_mul_right _ (Nat.le_of_lt_succ hc)
    omega

theorem value_digitChar {d : ℕ} (h : d < 10) : value [digitChar d] = d := by
  simp [value, valueIn, decimal?_digitChar h]

@[simp] theorem value_zeros (k : ℕ) : value (List.replicate k '0') = 0 := by
  induction k with
  | zero => rfl
  | succ k ih =>
    rw [List.replicate_succ', value_append, ih]
    rfl

/-! ## Numerals of Natural Numbers -/

/-- What stands behind a numeral is left alone while it is written. -/
theorem onto_eq_append (base n : ℕ) (tail : List Char) :
    onto base n tail = onto base n [] ++ tail := by
  induction n using Nat.strong_induction_on generalizing tail with
  | _ n ih =>
    rw [onto.eq_def base n tail, onto.eq_def base n []]
    split
    · rfl
    · have hlt : n / (base + 2) < n := Nat.div_lt_self (by omega) (by omega)
      rw [ih _ hlt, ih _ hlt [_]]
      simp

/-- The last digit of a numeral is the remainder, and the others are the numeral of the quotient. -/
theorem ofNat_eq (n : ℕ) :
    ofNat n = if n < 10 then [digitChar n] else ofNat (n / 10) ++ [digitChar (n % 10)] := by
  rw [ofNat, onto]
  split
  · rfl
  · rw [onto_eq_append]
    rfl

/-- **A numeral denotes the number it was written for.** -/
theorem value_ofNat (n : ℕ) : value (ofNat n) = n := by
  -- on the number: its last digit stands behind the digits of a tenth of it
  induction n using Nat.strong_induction_on with
  | _ n ih =>
    rw [ofNat_eq]
    split
    · next h => exact value_digitChar h
    · next h =>
      rw [value_append, ih (n / 10) (by omega), value_digitChar (Nat.mod_lt n (by omega))]
      simp only [List.length_singleton, pow_one]
      omega

/-- A numeral consists of digits. -/
theorem ofNat_isDecimal (n : ℕ) : ∀ c ∈ ofNat n, isDecimal c = true := by
  induction n using Nat.strong_induction_on with
  | _ n ih =>
    rw [ofNat_eq]
    split
    · next h => simpa using isDecimal_digitChar h
    · next h =>
      intro c hc
      rcases List.mem_append.mp hc with hc | hc
      · exact ih (n / 10) (by omega) c hc
      · rw [List.mem_singleton.mp hc]
        exact isDecimal_digitChar (Nat.mod_lt n (by omega))

theorem ofNat_ne_nil (n : ℕ) : ofNat n ≠ [] := by
  rw [ofNat_eq]
  split <;> simp

/-- A numeral has no leading zero. -/
theorem head_ofNat_ne_zero {n : ℕ} (h : n ≠ 0) : (ofNat n).head? ≠ some '0' := by
  induction n using Nat.strong_induction_on with
  | _ n ih =>
    rw [ofNat_eq]
    split
    · next hlt => simpa using digitChar_ne_zero hlt h
    · next hge =>
      rw [List.head?_append_of_ne_nil _ (ofNat_ne_nil _)]
      exact ih (n / 10) (by omega) (by omega)

/-- A numeral has no more digits than the number has places. -/
theorem length_ofNat_le {n k : ℕ} (hk : 0 < k) (h : n < 10 ^ k) : (ofNat n).length ≤ k := by
  -- on the number of digits: each takes a factor of ten off the bound
  induction k generalizing n with
  | zero => omega
  | succ k ih =>
    rw [ofNat_eq]
    split
    · simp
    · next hge =>
      rcases Nat.eq_zero_or_pos k with rfl | hk
      · omega
      · have hdiv : n / 10 < 10 ^ k := by
          rw [pow_succ] at h
          omega
        simpa using ih hk hdiv

/-! ## Hexadecimal Numerals -/

/-- The four digits of the number of a control character. -/
theorem hexadecimal_four {n : ℕ} (h : n < 256) :
    hexadecimal 4 n = ['0', '0', digitChar (n / 16), digitChar (n % 16)] := by
  simp only [hexadecimal]
  rw [onto]
  -- below 16 the leading digit is zero as well
  split
  · next hlt =>
    rw [Nat.div_eq_of_lt hlt, Nat.mod_eq_of_lt hlt]
    rfl
  · next hge =>
    rw [onto, if_pos (by omega)]
    rfl

end SchemaGraft.Digits
