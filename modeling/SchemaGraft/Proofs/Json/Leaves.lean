import SchemaGraft.Json.Reader
import SchemaGraft.Json.Writer
import SchemaGraft.Proofs.Number.Shortest
import SchemaGraft.Proofs.Text.Encoding
import SchemaGraft.Proofs.Text.Numeral

/-!
# Reading Strings and Numbers Back

The reader of JSON texts gives back every string, integer and finite number that the writer wrote.

## Architecture

- **Strings**: `readString_escape` reads one written code point, `readString_escaped` a whole string.
- **Numbers**: `readNumber_parts` reads a number part by part; the layouts of `NumberStyle` are
  instances of it.
- **Main results**: `readString_escaped`, `readNumber_ofInt` and `readNumber_numeral`.
-/

namespace SchemaGraft.Json

/-! ## Strings -/

/-- The four digits of the number of a control character denote that number. -/
theorem hex4?_hexadecimal {n : ℕ} (h : n < 0x20) :
    hex4? '0' '0' (Digits.digitChar (n / 16)) (Digits.digitChar (n % 16)) = some n := by
  have h0 : Digits.hex? '0' = some 0 := rfl
  simp only [hex4?, h0, Digits.hex?_digitChar (show n / 16 < 16 by omega),
    Digits.hex?_digitChar (show n % 16 < 16 by omega), Option.bind_eq_bind, Option.bind_some,
    Option.pure_def]
  congr 1
  omega

/-- The number of a control character is not half of a surrogate pair. -/
theorem pushUnit_control {c : Char} (h : c.toNat < 0x20) (t : Text) :
    pushUnit c.toNat t = .scalar c :: t := by
  have hchar : Codepoint.ofNat? c.toNat = some (.scalar c) := by
    rw [Codepoint.ofNat?, dif_pos (show c.toNat.isValidChar from c.valid)]
    rfl
  have hhigh : ¬0xD800 ≤ c.toNat := by omega
  cases t with
  | nil => simp only [pushUnit, hchar]
  | cons d t => simp only [pushUnit, hchar, hhigh, false_and, if_false]

/-- A written character is read back, in front of what follows it. -/
theorem readString_escape (c : Char) (start : ℕ) {rest : List Char} (hrest : rest ≠ []) :
    readString start ((escape (.scalar c)).scalars ++ rest) =
      (do let (t, rest) ← readString start rest; return (.scalar c :: t, rest)) := by
  obtain ⟨d, rest, rfl⟩ := List.exists_cons_of_ne_nil hrest
  rw [escape.eq_def]
  split
  -- the last case is every character that has no short escape
  case h_8 hquote hbackslash _ _ _ _ _ =>
    split
    · next hcontrol =>
      replace hcontrol : c.toNat < 0x20 := hcontrol
      rw [show Codepoint.value (.scalar c) = c.toNat from rfl,
        Digits.hexadecimal_four (by omega), Text.scalars_append, Text.scalars_ofString,
        Text.scalars_ofChars]
      simp only [String.reduceToList, List.cons_append, List.nil_append]
      rw [readString.eq_def]
      simp only [hex4?_hexadecimal hcontrol, pushUnit_control hcontrol]
    · next hplain =>
      have hc : ¬c < ' ' := hplain
      have hquote : c ≠ '"' := fun h => hquote (congrArg _ h)
      have hbackslash : c ≠ '\\' := fun h => hbackslash (congrArg _ h)
      rw [Text.scalars_cons, Text.scalars_nil, List.singleton_append, readString.eq_def]
      split <;> simp_all
  -- the short escapes
  all_goals
    rename_i heq
    obtain rfl := Codepoint.scalar.inj heq
    rfl

/-- The characters of a string without lone surrogates, up to the closing quotation mark. -/
theorem readString_escaped {t : Text} (ht : t.Encodable) (start : ℕ) (rest : List Char) :
    readString start (Text.scalars (t.flatMap escape) ++ '"' :: rest) = .ok (t, rest) := by
  induction t with
  | nil => rfl
  | cons c t ih =>
    cases c with
    | surrogate o => exact absurd (ht _ (List.mem_cons_self ..)) (by simp [Codepoint.isSurrogate])
    | scalar c =>
      rw [List.flatMap_cons, Text.scalars_append, List.append_assoc,
        readString_escape c start (by simp), ih ((Text.encodable_cons c t).mp ht)]
      rfl

/-- A quoted text has a quote on each side. -/
theorem scalars_quote (t : Text) :
    (quote t).scalars = '"' :: (Text.scalars (t.flatMap escape) ++ ['"']) := by
  rw [quote, List.cons_append, Text.scalars_cons, Text.scalars_append]
  rfl

/-! ## Parts of Numbers -/

/-- What may follow a number without being read as a part of it. -/
def EndsNumber (rest : List Char) : Prop :=
  ∀ c ∈ rest.head?, Digits.isDecimal c = false ∧ c ≠ '.' ∧ c ≠ 'e' ∧ c ≠ 'E'

/-- A text that starts with no digit. -/
theorem head_not_decimal {c : Char} (h : Digits.isDecimal c = false) (rest : List Char) :
    ∀ d ∈ (c :: rest).head?, Digits.isDecimal d = false := by
  rintro d ⟨⟩
  exact h

/-- The digits are read up to the first character that is none. -/
theorem spanDigits_append {digits rest : List Char} (h : ∀ c ∈ digits, Digits.isDecimal c = true)
    (hrest : ∀ c ∈ rest.head?, Digits.isDecimal c = false) :
    spanDigits (digits ++ rest) = (digits, rest) := by
  -- what stands behind the digits does not start with one
  have htake : rest.takeWhile Digits.isDecimal = [] := by
    cases rest with
    | nil => rfl
    | cons c rest => simp [hrest c rfl]
  have hdrop : rest.dropWhile Digits.isDecimal = rest := by
    cases rest with
    | nil => rfl
    | cons c rest => simp [hrest c rfl]
  rw [spanDigits, List.takeWhile_append_of_pos h, List.dropWhile_append_of_pos h, htake, hdrop,
    List.append_nil]

/-- Digits without a leading zero are read as the part in front of a point. -/
theorem readWhole_append {digits rest : List Char} (h : ∀ c ∈ digits, Digits.isDecimal c = true)
    (hzero : digits.head? ≠ some '0') (hne : digits ≠ [])
    (hrest : ∀ c ∈ rest.head?, Digits.isDecimal c = false) :
    readWhole (digits ++ rest) = (digits, rest) := by
  rw [← spanDigits_append h hrest]
  obtain ⟨c, digits, rfl⟩ := List.exists_cons_of_ne_nil hne
  rw [readWhole.eq_def]
  split
  · next heq => exact absurd (congrArg some (List.cons.inj heq).1) hzero
  · rfl

/-- Digits behind a point are a fraction. -/
theorem readFraction_cons {digits rest : List Char} (h : ∀ c ∈ digits, Digits.isDecimal c = true)
    (hne : digits ≠ []) (hrest : ∀ c ∈ rest.head?, Digits.isDecimal c = false) :
    readFraction ('.' :: digits ++ rest) = (digits, rest) := by
  rw [List.cons_append, readFraction, spanDigits_append h hrest]
  simp [hne]

/-- Without a point there is no fraction. -/
theorem readFraction_none {rest : List Char} (h : ∀ c ∈ rest.head?, c ≠ '.') :
    readFraction rest = ([], rest) := by
  rw [readFraction.eq_def]
  split
  · exact absurd rfl (h '.' rfl)
  · rfl

/-- Digits behind the mark and a sign are an exponent. -/
theorem readExponent_cons (negative : Bool) {digits rest : List Char}
    (h : ∀ c ∈ digits, Digits.isDecimal c = true) (hne : digits ≠ [])
    (hrest : ∀ c ∈ rest.head?, Digits.isDecimal c = false) :
    readExponent ('e' :: (if negative then '-' else '+') :: digits ++ rest) =
      (some (if negative then -(Digits.value digits : ℤ) else Digits.value digits), rest) := by
  cases negative <;>
    simp [readExponent, spanDigits_append h hrest, hne]

/-- Without the mark there is no exponent. -/
theorem readExponent_none {rest : List Char} (h : ∀ c ∈ rest.head?, c ≠ 'e' ∧ c ≠ 'E') :
    readExponent rest = (none, rest) := by
  cases rest with
  | nil => rfl
  | cons c rest => simp [readExponent, h c rfl]

/-- A number is read part by part. -/
theorem readNumber_parts (negative : Bool) {whole rest fraction rest' rest'' : List Char}
    {exponent : Option ℤ} (hdigits : ∀ c ∈ whole, Digits.isDecimal c = true) (hne : whole ≠ [])
    (hwhole : readWhole (whole ++ rest) = (whole, rest))
    (hfraction : readFraction rest = (fraction, rest'))
    (hexponent : readExponent rest' = (exponent, rest'')) :
    readNumber ((if negative then ['-'] else []) ++ whole ++ rest) =
      if fraction.isEmpty && exponent.isNone then
        if maxIntegerDigits < whole.length then some (.error (.longInteger whole.length))
        else
          some (.ok (.int (if negative then -(Digits.value whole : ℤ) else Digits.value whole),
            rest''))
      else
        some (.ok (.float (Binary64.ofDecimal negative (Digits.value (whole ++ fraction))
          (exponent.getD 0 - fraction.length)), rest'')) := by
  obtain ⟨c, whole, rfl⟩ := List.exists_cons_of_ne_nil hne
  have hc : c ≠ '-' := by
    rintro rfl
    exact absurd (hdigits '-' (by simp)) (by decide)
  rw [List.cons_append] at hwhole
  -- the first digit is no sign, so that a sign is read only if it is there
  cases negative with
  | true => simp [readNumber, hwhole, hfraction, hexponent]
  | false => simp [readNumber, hc, hwhole, hfraction, hexponent]

/-! ## Integers -/

/-- An integer is written with the digits of its absolute value. -/
theorem ofInt_eq (n : ℤ) :
    Digits.ofInt n = (if n < 0 then ['-'] else []) ++ Digits.ofNat n.natAbs := by
  cases n with
  | ofNat n => rw [Digits.ofInt, if_neg (by simp)]; rfl
  | negSucc n => rw [Digits.ofInt, if_pos (Int.negSucc_lt_zero n)]; rfl

/-- The digits of a number are read as its whole part, since they start with a zero only if this is all. -/
theorem readWhole_ofNat (n : ℕ) {rest : List Char}
    (hrest : ∀ c ∈ rest.head?, Digits.isDecimal c = false) :
    readWhole (Digits.ofNat n ++ rest) = (Digits.ofNat n, rest) := by
  rcases Nat.eq_zero_or_pos n with rfl | hn
  · rw [Digits.ofNat_eq]
    rfl
  · exact readWhole_append (Digits.ofNat_isDecimal n) (Digits.head_ofNat_ne_zero hn.ne')
      (Digits.ofNat_ne_nil n) hrest

theorem signed_natAbs (n : ℤ) :
    (if decide (n < 0) then -(n.natAbs : ℤ) else n.natAbs) = n := by
  split
  · next h => rw [Int.ofNat_natAbs_of_nonpos (of_decide_eq_true h).le, neg_neg]
  · next h => exact Int.natAbs_of_nonneg (by simpa using h)

/-- **Integers are read back.** -/
theorem readNumber_ofInt {n : ℤ} (hn : n.natAbs < 10 ^ maxIntegerDigits) {rest : List Char}
    (hrest : EndsNumber rest) :
    readNumber (Digits.ofInt n ++ rest) = some (.ok (.int n, rest)) := by
  have hlength := Digits.length_ofNat_le (by decide) hn
  have hsign : (if n < 0 then ['-'] else []) = if decide (n < 0) then ['-'] else [] := by simp
  rw [ofInt_eq, hsign, readNumber_parts _ (Digits.ofNat_isDecimal _) (Digits.ofNat_ne_nil _)
    (readWhole_ofNat _ fun c hc => (hrest c hc).1) (readFraction_none fun c hc => (hrest c hc).2.1)
    (readExponent_none fun c hc => (hrest c hc).2.2), Digits.value_ofNat, signed_natAbs,
    if_pos (by rfl), if_neg hlength.not_gt]

/-! ## Floating-Point Numbers -/

/-- Padding adds digits. -/
theorem padded_isDecimal (width n : ℕ) : ∀ c ∈ Digits.padded width n, Digits.isDecimal c = true := by
  intro c hc
  rcases List.mem_append.mp hc with hc | hc
  · rw [List.eq_of_mem_replicate hc]
    rfl
  · exact Digits.ofNat_isDecimal n c hc

/-- Padding does not change the value. -/
theorem value_padded (width n : ℕ) : Digits.value (Digits.padded width n) = n := by
  simp [Digits.padded, Digits.value_append, Digits.value_ofNat]

theorem padded_ne_nil (width n : ℕ) : Digits.padded width n ≠ [] := by
  simp [Digits.padded, Digits.ofNat_ne_nil]

theorem zero_isDecimal : ∀ c ∈ ['0'], Digits.isDecimal c = true :=
  List.forall_mem_singleton.mpr rfl

/-- A number with a fraction and without an exponent. -/
theorem readNumber_fraction (negative : Bool) {whole fraction rest : List Char}
    (hwhole : ∀ c ∈ whole, Digits.isDecimal c = true) (hne : whole ≠ [])
    (hzero : whole.head? ≠ some '0' ∨ whole = ['0'])
    (hfraction : ∀ c ∈ fraction, Digits.isDecimal c = true) (hne' : fraction ≠ [])
    (hrest : EndsNumber rest) :
    readNumber ((if negative then ['-'] else []) ++ whole ++ '.' :: fraction ++ rest) =
      some (.ok (.float (Binary64.ofDecimal negative (Digits.value (whole ++ fraction))
        (-fraction.length)), rest)) := by
  have hread : readWhole (whole ++ ('.' :: fraction ++ rest)) =
      (whole, '.' :: fraction ++ rest) := by
    -- a leading zero is a whole part of its own
    rcases hzero with hzero | rfl
    · exact readWhole_append hwhole hzero hne (head_not_decimal rfl _)
    · rfl
  rw [List.append_assoc, readNumber_parts negative hwhole hne hread
    (readFraction_cons hfraction hne' fun c hc => (hrest c hc).1)
    (readExponent_none fun c hc => (hrest c hc).2.2)]
  simp [hne']

/-- A number with an exponent, with or without a fraction. -/
theorem readNumber_exponent (negative negativeExponent : Bool)
    {whole fraction exponent rest : List Char}
    (hwhole : ∀ c ∈ whole, Digits.isDecimal c = true) (hne : whole ≠ [])
    (hzero : whole.head? ≠ some '0')
    (hfraction : ∀ c ∈ fraction, Digits.isDecimal c = true)
    (hexponent : ∀ c ∈ exponent, Digits.isDecimal c = true) (hne' : exponent ≠ [])
    (hrest : EndsNumber rest) :
    readNumber ((if negative then ['-'] else []) ++ whole ++
        ((if fraction.isEmpty then [] else '.' :: fraction) ++
          'e' :: (if negativeExponent then '-' else '+') :: exponent) ++ rest) =
      some (.ok (.float (Binary64.ofDecimal negative (Digits.value (whole ++ fraction))
        ((if negativeExponent then -(Digits.value exponent : ℤ) else Digits.value exponent) -
          fraction.length)), rest)) := by
  obtain ⟨tail, htail⟩ : ∃ tail, tail = (if negativeExponent then '-' else '+') :: exponent ++ rest :=
    ⟨_, rfl⟩
  have hends : ∀ c ∈ rest.head?, Digits.isDecimal c = false := fun c hc => (hrest c hc).1
  have hread := readExponent_cons negativeExponent hexponent hne' hends
  rw [List.cons_append, ← htail] at hread
  have hhead : ∀ c ∈ ('e' :: tail).head?, Digits.isDecimal c = false := head_not_decimal rfl tail
  rw [List.append_assoc _ _ rest, List.append_assoc _ _ rest, List.cons_append, ← htail]
  -- without a fraction there is no point either
  by_cases hempty : fraction = []
  · have hnone : readFraction ('e' :: tail) = ([], 'e' :: tail) := rfl
    subst hempty
    rw [List.isEmpty_nil, if_pos rfl, List.nil_append, readNumber_parts negative hwhole hne
      (readWhole_append hwhole hzero hne hhead) hnone hread]
    simp
  · have hsome := readFraction_cons hfraction hempty hhead
    have hmark : (if fraction.isEmpty then [] else '.' :: fraction) = '.' :: fraction := by
      simp [hempty]
    have hpoint : readWhole (whole ++ ('.' :: fraction ++ 'e' :: tail)) =
        (whole, '.' :: fraction ++ 'e' :: tail) :=
      readWhole_append hwhole hzero hne (head_not_decimal rfl _)
    rw [hmark, readNumber_parts negative hwhole hne hpoint hsome hread]
    simp

/-! ## Layouts -/

section

variable (negative : Bool) {digits rest : List Char} {d : ℕ} {exponent place : ℤ}

/-- Zeros stand between the point and the digits. -/
theorem readNumber_small (hdigits : ∀ c ∈ digits, Digits.isDecimal c = true) (hne : digits ≠ [])
    (hvalue : Digits.value digits = d) (hplace : place = exponent + digits.length - 1)
    (hnegative : place < 0) (hrest : EndsNumber rest) :
    readNumber ((if negative then ['-'] else []) ++
        ('0' :: '.' :: List.replicate (-place - 1).toNat '0' ++ digits) ++ rest) =
      some (.ok (.float (Binary64.ofDecimal negative d exponent), rest)) := by
  have hfraction : ∀ c ∈ List.replicate (-place - 1).toNat '0' ++ digits,
      Digits.isDecimal c = true := by
    intro c hc
    rcases List.mem_append.mp hc with hc | hc
    · rw [List.eq_of_mem_replicate hc]
      rfl
    · exact hdigits c hc
  have h := readNumber_fraction negative zero_isDecimal (by simp) (.inr rfl) hfraction
    (by simp [hne]) hrest
  -- the zeros behind the point do not change the digits, but their number gives the place
  have hsame : Digits.value (['0'] ++ (List.replicate (-place - 1).toNat '0' ++ digits)) = d := by
    simp only [Digits.value_append, Digits.value_zeros, hvalue]
    rw [show Digits.value ['0'] = 0 from rfl]
    omega
  have hexponent : -((List.replicate (-place - 1).toNat '0' ++ digits).length : ℤ) =
      exponent := by
    have hlength : 0 < digits.length := List.length_pos_iff.mpr hne
    simp only [List.length_append, List.length_replicate]
    omega
  rw [hsame, hexponent] at h
  simpa only [List.append_assoc, List.cons_append, List.nil_append] using h

/-- The point stands behind some of the digits, or behind all of them and perhaps some zeros. -/
theorem readNumber_positional (hdigits : ∀ c ∈ digits, Digits.isDecimal c = true)
    (hne : digits ≠ []) (hzero : digits.head? ≠ some '0') (hvalue : Digits.value digits = d)
    {whole : ℕ} (hpos : 0 < whole) (hplace : (whole : ℤ) = exponent + digits.length)
    (hrest : EndsNumber rest) :
    readNumber ((if negative then ['-'] else []) ++
        (digits.take whole ++ List.replicate (whole - digits.length) '0' ++
          '.' :: (if (digits.drop whole).isEmpty then ['0'] else digits.drop whole)) ++ rest) =
      some (.ok (.float (Binary64.ofDecimal negative d exponent), rest)) := by
  have hfront : ∀ c ∈ digits.take whole ++ List.replicate (whole - digits.length) '0',
      Digits.isDecimal c = true := by
    intro c hc
    rcases List.mem_append.mp hc with hc | hc
    · exact hdigits c (List.mem_of_mem_take hc)
    · rw [List.eq_of_mem_replicate hc]
      rfl
  obtain ⟨k, rfl⟩ : ∃ k, whole = k + 1 := ⟨whole - 1, by omega⟩
  have hhead : (digits.take (k + 1) ++ List.replicate (k + 1 - digits.length) '0').head? ≠
      some '0' := by
    obtain ⟨c, digits, rfl⟩ := List.exists_cons_of_ne_nil hne
    simpa using hzero
  have hfne : digits.take (k + 1) ++ List.replicate (k + 1 - digits.length) '0' ≠ [] := by
    simp [hne]
  by_cases hback : digits.drop (k + 1) = []
  · -- no digit is left for the fraction: it is written as one zero, which shifts the number
    have hle : digits.length ≤ k + 1 := List.drop_eq_nil_iff.mp hback
    have h := readNumber_fraction negative hfront hfne (.inl hhead) zero_isDecimal (by simp) hrest
    have hshift := Binary64.ofDecimal_shift negative d exponent (k + 1 - digits.length + 1)
    have hsame : Digits.value (digits.take (k + 1) ++
        List.replicate (k + 1 - digits.length) '0' ++ ['0']) =
          d * 10 ^ (k + 1 - digits.length + 1) := by
      rw [List.take_of_length_le hle, List.append_assoc, ← List.replicate_succ',
        Digits.value_append, Digits.value_zeros, hvalue, List.length_replicate, Nat.add_zero]
    have hexponent : -(['0'].length : ℤ) = exponent - (k + 1 - digits.length + 1 : ℕ) := by
      simp only [List.length_singleton]
      omega
    rw [hsame, hexponent, hshift] at h
    simpa [hback] using h
  · -- the point stands between two digits, and no zeros are needed
    have hlt : k + 1 < digits.length := by
      by_contra hle
      exact hback (List.drop_eq_nil_iff.mpr (by omega))
    have hpad : List.replicate (k + 1 - digits.length) '0' = [] := by
      rw [Nat.sub_eq_zero_of_le hlt.le]
      rfl
    have h := readNumber_fraction negative hfront hfne (.inl hhead)
      (fun c hc => hdigits c (List.mem_of_mem_drop hc)) hback hrest
    have hexponent : -((digits.drop (k + 1)).length : ℤ) = exponent := by
      rw [List.length_drop]
      omega
    rw [hpad, List.append_nil, List.take_append_drop, hvalue, hexponent] at h
    simpa [hback, hpad] using h

/-- One digit stands in front of the point, if there is one, and an exponent at the end. -/
theorem readNumber_scientific (hdigits : ∀ c ∈ digits, Digits.isDecimal c = true)
    (hne : digits ≠ []) (hzero : digits.head? ≠ some '0') (hvalue : Digits.value digits = d)
    (hplace : place = exponent + digits.length - 1) (width : ℕ) (hrest : EndsNumber rest) :
    readNumber ((if negative then ['-'] else []) ++
        (digits.take 1 ++ (if (digits.drop 1).isEmpty then [] else '.' :: digits.drop 1) ++
          'e' :: (if place < 0 then '-' else '+') :: Digits.padded width place.natAbs) ++ rest) =
      some (.ok (.float (Binary64.ofDecimal negative d exponent), rest)) := by
  have hhead : (digits.take 1).head? ≠ some '0' := by
    obtain ⟨c, digits, rfl⟩ := List.exists_cons_of_ne_nil hne
    simpa using hzero
  have hfraction : ∀ c ∈ digits.drop 1, Digits.isDecimal c = true :=
    fun c hc => hdigits c (List.mem_of_mem_drop hc)
  have h := readNumber_exponent negative (decide (place < 0))
    (fun c hc => hdigits c (List.mem_of_mem_take hc)) (by simp [hne]) hhead hfraction
    (padded_isDecimal width place.natAbs) (padded_ne_nil _ _) hrest
  -- the place is that of the first digit, and all but the first stand behind the point
  have hexponent : place - ((digits.drop 1).length : ℤ) = exponent := by
    have hlength : 0 < digits.length := List.length_pos_iff.mpr hne
    rw [List.length_drop]
    omega
  rw [List.take_append_drop, hvalue, value_padded, signed_natAbs, hexponent] at h
  simpa using h

/-- **The digits of a number are read back in each of their layouts.** -/
theorem readNumber_layout (hd : d ≠ 0) (exponent : ℤ) (hrest : EndsNumber rest) :
    readNumber ((if negative then ['-'] else []) ++ NumberStyle.standard.layout (Digits.ofNat d)
        (exponent + (Digits.ofNat d).length - 1) ++ rest) =
      some (.ok (.float (Binary64.ofDecimal negative d exponent), rest)) := by
  have hdigits := Digits.ofNat_isDecimal d
  have hne := Digits.ofNat_ne_nil d
  have hzero := Digits.head_ofNat_ne_zero hd
  obtain ⟨place, hplace⟩ : ∃ place : ℤ, place = exponent + (Digits.ofNat d).length - 1 := ⟨_, rfl⟩
  rw [← hplace, NumberStyle.layout]
  -- the place of the first digit decides on the layout
  by_cases hpositional : NumberStyle.standard.minPositional ≤ place ∧
    place < NumberStyle.standard.maxPositional
  · rw [if_pos hpositional]
    by_cases hnegative : place < 0
    · rw [if_pos hnegative]
      exact readNumber_small negative hdigits hne (Digits.value_ofNat d) hplace hnegative hrest
    · rw [if_neg hnegative]
      exact readNumber_positional negative hdigits hne hzero (Digits.value_ofNat d)
        (Nat.succ_pos _) (by omega) hrest
  · rw [if_neg hpositional]
    exact readNumber_scientific negative hdigits hne hzero (Digits.value_ofNat d) hplace _ hrest

end

/-- **Finite numbers are read back.** -/
theorem readNumber_numeral {x : Binary64} (hx : x.isFinite = true) {rest : List Char}
    (hrest : EndsNumber rest) : readNumber (x.numeral ++ rest) = some (.ok (.float x, rest)) := by
  cases x with
  | nan negative => simp [Binary64.isFinite] at hx
  | infinite negative => simp [Binary64.isFinite] at hx
  | finite negative m e hfits =>
    rw [Binary64.numeral]
    rcases Nat.eq_zero_or_pos m with rfl | hm
    · -- zero is written as `0.0`
      have h := readNumber_fraction negative zero_isDecimal (by simp) (.inr rfl) zero_isDecimal
        (by simp) hrest
      have he : e = Binary64.minExponent := hfits.2.2.2.resolve_left (by omega)
      subst he
      have hzero : Binary64.ofDecimal negative (Digits.value ['0', '0']) (-1) =
          .finite negative 0 Binary64.minExponent hfits := if_pos rfl
      simpa [hzero] using h
    · -- what is laid out are the shortest digits, and these denote the number
      have hread := Binary64.trimZeros_readsBack hm hfits 400
      rw [if_neg hm.ne']
      dsimp only at hread ⊢
      generalize Binary64.trimZeros 400 _ _ = r at *
      rw [readNumber_layout negative hread.1 _ hrest,
        Binary64.ofDecimal_sign negative hread.2]

end SchemaGraft.Json
