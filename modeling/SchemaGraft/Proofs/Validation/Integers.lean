import SchemaGraft.Proofs.Text.Encoding
import SchemaGraft.Proofs.Text.Numeral
import SchemaGraft.Validation.Leaf

/-!
# Texts and Numbers That Stand for Integers

Which texts are converted to an integer, given by a grammar: blanks, a sign, zeros that may have underscores
among them, digits with single underscores between two of them, a fraction of zeros, and blanks again.

## Architecture

- **Grammar**: `Check.Joined`, `Check.Filling` and `Check.ZeroFraction` make up a `Check.Numeral`; with its sign
  and its blanks it makes a text that `Check.Denotes` an integer.
- **Numerals**: each step of the conversion takes one part of a numeral off, from
  `Check.joinDigits?_eq_some_iff` to `Check.whole_dropLeadingZeros`.
- **Main results**: `Check.integerOfText_eq_ok_iff`, and `Check.integerOfFloat_eq_ok_iff` for numbers.
-/

namespace SchemaGraft

namespace Check

/-! ## Grammar -/

/-- Digits with single underscores between two of them, and the digits alone. -/
inductive Joined : List Char → List Char → Prop
  | last {c : Char} (hc : Digits.isDecimal c = true) : Joined [c] [c]
  | next {c : Char} {cs ds : List Char} (hc : Digits.isDecimal c = true) (rest : Joined cs ds) :
    Joined (c :: cs) (c :: ds)
  | underscore {c : Char} {cs ds : List Char} (hc : Digits.isDecimal c = true) (rest : Joined cs ds) :
    Joined (c :: '_' :: cs) (c :: ds)

/-- Nothing, or a zero with any zeros and underscores behind it. -/
inductive Filling : List Char → Prop
  | none : Filling []
  | zeros {cs : List Char} (hcs : ∀ c ∈ cs, isFiller c = true) : Filling ('0' :: cs)

/-- Nothing, or a point with one or more zeros behind it. -/
inductive ZeroFraction : List Char → Prop
  | none : ZeroFraction []
  | zeros {cs : List Char} (hcs : ∀ c ∈ cs, c = '0') : ZeroFraction ('.' :: '0' :: cs)

/-- Joined digits and a fraction of zeros, and the digits alone. -/
inductive Whole : List Char → List Char → Prop
  | intro {cs ds fraction : List Char} (joined : Joined cs ds) (zeros : ZeroFraction fraction) :
    Whole (cs ++ fraction) ds

/-- A numeral, and its digits; zeros in front of it need not be among them. -/
inductive Numeral : List Char → List Char → Prop
  | intro {zeros cs ds : List Char} (filling : Filling zeros) (whole : Whole cs ds) :
    Numeral (zeros ++ cs) ds

/-- A sign, if any; is it that of negative numbers? -/
inductive Sign : List Char → Bool → Prop
  | none : Sign [] false
  | plus : Sign ['+'] false
  | minus : Sign ['-'] true

/-- The text denotes the integer.  There is a limit on the digits behind the zeros at the start. -/
inductive Denotes : Text → ℤ → Prop
  | intro {before after : Text} {sign cs ds : List Char} {isNegative : Bool}
    (hbefore : ∀ c ∈ before, c.isBlank = true) (hafter : ∀ c ∈ after, c.isBlank = true)
    (signed : Sign sign isNegative) (numeral : Numeral cs ds)
    (short : (ds.dropWhile (· == '0')).length ≤ maxIntegerDigits) :
    Denotes (before ++ Text.ofChars (sign ++ cs) ++ after)
      (if isNegative then -(Digits.value ds : ℤ) else Digits.value ds)

/-! ## Digits -/

variable {cs ds : List Char} {c d : Char}

theorem ne_of_isDecimal (hc : Digits.isDecimal c = true) (hd : Digits.isDecimal d = false) : c ≠ d := by
  rintro rfl
  rw [hc] at hd
  cases hd

/-- Joined digits start with a digit. -/
theorem Joined.exists_cons (h : Joined cs ds) :
    ∃ c rest, cs = c :: rest ∧ Digits.isDecimal c = true := by
  cases h with
  | last hc => exact ⟨_, _, rfl, hc⟩
  | next hc => exact ⟨_, _, rfl, hc⟩
  | underscore hc => exact ⟨_, _, rfl, hc⟩

/-- The digits of a numeral are those between its underscores. -/
theorem joinDigits?_eq_some_iff : joinDigits? cs = some ds ↔ Joined cs ds := by
  constructor
  · intro h
    fun_induction joinDigits? cs generalizing ds with
    | case1 => cases h
    | case2 c hc =>
      cases h
      exact .last hc
    | case3 => cases h
    | case4 c d rest hc ih =>
      obtain ⟨es, hes, rfl⟩ := Option.map_eq_some_iff.mp h
      exact .underscore hc (ih hes)
    | case5 => cases h
    | case6 c d rest _ hc ih =>
      obtain ⟨es, hes, rfl⟩ := Option.map_eq_some_iff.mp h
      exact .next hc (ih hes)
    | case7 => cases h
  · intro h
    induction h with
    | last hc => simp [joinDigits?, hc]
    | next hc hrest ih =>
      obtain ⟨d, rest, rfl, hd⟩ := hrest.exists_cons
      -- the digit behind is no underscore
      rw [joinDigits?.eq_4 _ _ _ fun _ _ hd' _ => ne_of_isDecimal hd rfl hd', if_pos hc, ih]
      rfl
    | underscore hc hrest ih =>
      obtain ⟨d, rest, rfl, hd⟩ := hrest.exists_cons
      rw [joinDigits?, if_pos hc, ih]
      rfl

/-! ## Fractions -/

/-- There is no point among joined digits. -/
theorem Joined.ne_point (h : Joined cs ds) : ∀ c ∈ cs, c ≠ '.' := by
  induction h with
  | last hc => exact List.forall_mem_singleton.mpr (ne_of_isDecimal hc rfl)
  | next hc _ ih => exact List.forall_mem_cons.mpr ⟨ne_of_isDecimal hc rfl, ih⟩
  | underscore hc _ ih =>
    exact List.forall_mem_cons.mpr ⟨ne_of_isDecimal hc rfl, List.forall_mem_cons.mpr ⟨by decide, ih⟩⟩

/-- What is left without a fraction of zeros are joined digits when the whole is as described. -/
theorem joined_dropZeroFraction : Joined (dropZeroFraction cs) ds ↔ Whole cs ds := by
  constructor
  · intro h
    rw [dropZeroFraction] at h
    split at h
    · next more hmore =>
      split at h
      · next hzeros =>
        rw [← List.takeWhile_append_dropWhile (p := (· ≠ '.')) (l := cs), hmore]
        exact .intro h (.zeros fun c hc => by simpa using List.all_eq_true.mp hzeros c hc)
      · exact List.append_nil cs ▸ .intro h .none
    · exact List.append_nil cs ▸ .intro h .none
  · rintro ⟨h, hfraction⟩
    have hpoint : ∀ c ∈ _, (c ≠ '.' : Bool) = true := fun c hc => decide_eq_true (h.ne_point c hc)
    -- no joined digits hold a point, so the first point starts the fraction
    rw [dropZeroFraction, List.dropWhile_append_of_pos hpoint]
    cases hfraction with
    | none => rwa [List.append_nil]
    | @zeros zeros hzeros =>
      have hall : zeros.all (· == '0') = true := List.all_eq_true.mpr fun c hc => beq_iff_eq.mpr (hzeros c hc)
      have hdrop : ('.' :: '0' :: zeros).dropWhile (fun c => decide (c ≠ '.')) = '.' :: '0' :: zeros := rfl
      have htake : ('.' :: '0' :: zeros).takeWhile (fun c => decide (c ≠ '.')) = [] := rfl
      simp only [hdrop, hall, if_true, List.takeWhile_append_of_pos hpoint, htake, List.append_nil]
      exact h

/-! ## Leading Zeros -/

theorem isFiller_iff : isFiller c = true ↔ c = '0' ∨ c = '_' := by
  simp [isFiller]

/-- What is dropped at the start of a numeral is a filling. -/
theorem exists_dropLeadingZeros (cs : List Char) :
    ∃ zeros, Filling zeros ∧ cs = zeros ++ dropLeadingZeros cs := by
  rw [dropLeadingZeros.eq_def]
  split
  · next rest =>
    dsimp only
    have hsplit := List.takeWhile_append_dropWhile (p := isFiller) (l := rest)
    have hfillers : ∀ c ∈ rest.takeWhile isFiller, isFiller c = true :=
      fun _ hc => List.all_eq_true.mp List.all_takeWhile _ hc
    generalize rest.takeWhile isFiller = fillers at hsplit hfillers
    generalize rest.dropWhile isFiller = more at hsplit
    subst hsplit
    -- the last of the zeros and underscores is kept where no digit follows
    have hlast : ∃ zeros, Filling zeros ∧ '0' :: fillers = zeros ++ [fillers.getLast?.getD '0'] := by
      rcases List.eq_nil_or_concat fillers with rfl | ⟨front, last, rfl⟩
      · exact ⟨[], .none, rfl⟩
      · exact ⟨'0' :: front, .zeros fun c hc => hfillers c (by simp [hc]), by simp⟩
    obtain ⟨zeros, hzeros, hlast⟩ := hlast
    split
    · exact ⟨zeros, hzeros, by rw [List.append_nil, hlast]⟩
    · refine ⟨zeros, hzeros, ?_⟩
      rw [← List.cons_append, hlast, List.append_assoc, List.singleton_append]
    · exact ⟨'0' :: fillers, .zeros hfillers, rfl⟩
  · exact ⟨[], .none, rfl⟩

theorem Joined.eq_cons (h : Joined (c :: cs) ds) : Digits.isDecimal c = true ∧ ∃ es, ds = c :: es := by
  cases h with
  | last hc => exact ⟨hc, _, rfl⟩
  | next hc => exact ⟨hc, _, rfl⟩
  | underscore hc => exact ⟨hc, _, rfl⟩

/-- Joined digits that start with another digit than zero stay as they are. -/
theorem Joined.dropWhile_of_ne_zero (h : Joined (c :: cs) ds) (hzero : c ≠ '0') :
    Joined ((c :: cs).dropWhile isFiller) (ds.dropWhile (· == '0')) := by
  obtain ⟨hc, es, rfl⟩ := h.eq_cons
  have hfiller : ¬isFiller c = true := by
    rw [isFiller_iff]
    exact not_or.mpr ⟨hzero, ne_of_isDecimal hc rfl⟩
  rwa [List.dropWhile_cons_of_neg hfiller, List.dropWhile_cons_of_neg (by simpa using hzero)]

/-- Without the zeros and underscores in front of them, joined digits are joined digits, unless nothing is
left; then the last of them is a zero. -/
theorem Joined.dropWhile (h : Joined cs ds) :
    (∀ c ∈ cs, isFiller c = true) ∧ cs.getLast? = some '0' ∧ ds.dropWhile (· == '0') = [] ∨
      Joined (cs.dropWhile isFiller) (ds.dropWhile (· == '0')) := by
  -- either there is nothing but zeros, or what stays are joined digits again
  induction h with
  | @last c hc =>
    by_cases hzero : c = '0'
    · exact .inl (by simp [hzero, isFiller])
    · exact .inr ((Joined.last hc).dropWhile_of_ne_zero hzero)
  | @next c cs ds hc hrest ih =>
    by_cases hzero : c = '0'
    · subst hzero
      rcases ih with ⟨hfillers, hlast, hdigits⟩ | hjoined
      · exact .inl ⟨List.forall_mem_cons.mpr ⟨rfl, hfillers⟩, by simp [List.getLast?_cons, hlast], hdigits⟩
      · exact .inr hjoined
    · exact .inr ((Joined.next hc hrest).dropWhile_of_ne_zero hzero)
  | @underscore c cs ds hc hrest ih =>
    by_cases hzero : c = '0'
    · subst hzero
      rcases ih with ⟨hfillers, hlast, hdigits⟩ | hjoined
      · exact .inl ⟨List.forall_mem_cons.mpr ⟨rfl, List.forall_mem_cons.mpr ⟨rfl, hfillers⟩⟩,
          by simp [List.getLast?_cons, hlast], hdigits⟩
      · exact .inr hjoined
    · exact .inr ((Joined.underscore hc hrest).dropWhile_of_ne_zero hzero)

/-- The digits of a numeral that are left without the zeros in front; one of them stays where no other digit
follows. -/
def significant (ds : List Char) : List Char :=
  match ds.dropWhile (· == '0') with
  | [] => ['0']
  | more => more

/-- Zeros in front do not matter to the value. -/
theorem value_dropWhile_zero (ds : List Char) :
    Digits.value (ds.dropWhile (· == '0')) = Digits.value ds := by
  induction ds with
  | nil => rfl
  | cons d ds ih =>
    by_cases hd : d = '0'
    · subst hd
      rw [List.dropWhile_cons_of_pos rfl, ih, ← List.singleton_append, Digits.value_append]
      simp [Digits.value, Digits.valueIn, Digits.decimal?]
    · rw [List.dropWhile_cons_of_neg (by simpa using hd)]

/-- Nor is the value of the significant digits another. -/
theorem value_significant (ds : List Char) : Digits.value (significant ds) = Digits.value ds := by
  rw [← value_dropWhile_zero ds, significant]
  split
  · next hnil => rw [hnil]; rfl
  · rfl

/-- Whether there are too many digits is told from those behind the zeros. -/
theorem length_significant (ds : List Char) :
    (significant ds).length ≤ maxIntegerDigits ↔ (ds.dropWhile (· == '0')).length ≤ maxIntegerDigits := by
  rw [significant]
  split
  · next hnil => rw [hnil]; decide
  · rfl

/-- A numeral starts with a digit. -/
theorem Numeral.exists_cons (h : Numeral cs ds) : ∃ c rest, cs = c :: rest ∧ Digits.isDecimal c = true := by
  obtain ⟨hfilling, ⟨hjoined, -⟩⟩ := h
  cases hfilling with
  | none =>
    obtain ⟨c, rest, rfl, hc⟩ := hjoined.exists_cons
    exact ⟨c, _, rfl, hc⟩
  | zeros => exact ⟨'0', _, rfl, rfl⟩

/-- Zeros and underscores at the start of a numeral start with a zero. -/
theorem eq_zero_cons {fillers rest : List Char} (hfillers : ∀ c ∈ fillers, isFiller c = true)
    (h : Numeral (fillers ++ rest) ds) : fillers = [] ∨ ∃ more, fillers = '0' :: more := by
  obtain ⟨c, more, hcons, hc⟩ := h.exists_cons
  cases fillers with
  | nil => exact .inl rfl
  | cons d fillers =>
    obtain rfl := (List.cons.inj hcons).1
    rcases isFiller_iff.mp (hfillers d List.mem_cons_self) with rfl | rfl
    · exact .inr ⟨fillers, rfl⟩
    · cases hc

/-- Where no digit follows the zeros and underscores at the start, the last of them is kept. -/
theorem dropLeadingZeros_of_zeroFraction {fillers fraction : List Char}
    (hfillers : ∀ c ∈ fillers, isFiller c = true) (h : ZeroFraction fraction) :
    dropLeadingZeros ('0' :: fillers ++ fraction) = fillers.getLast?.getD '0' :: fraction := by
  rw [List.cons_append, dropLeadingZeros, List.takeWhile_append_of_pos hfillers,
    List.dropWhile_append_of_pos hfillers]
  cases h with
  | none => rw [List.takeWhile_nil, List.append_nil]; rfl
  | zeros hcs =>
    rw [List.takeWhile_cons_of_neg (by decide), List.dropWhile_cons_of_neg (by decide), List.append_nil]
    rfl

/-- Otherwise none of them is. -/
theorem dropLeadingZeros_of_isDecimal {fillers rest : List Char}
    (hfillers : ∀ c ∈ fillers, isFiller c = true) (hc : Digits.isDecimal c = true) (hzero : c ≠ '0') :
    dropLeadingZeros ('0' :: fillers ++ c :: rest) = c :: rest := by
  have hfiller : ¬isFiller c = true := by
    rw [isFiller_iff]
    exact not_or.mpr ⟨hzero, ne_of_isDecimal hc rfl⟩
  rw [List.cons_append, dropLeadingZeros, List.dropWhile_append_of_pos hfillers,
    List.dropWhile_cons_of_neg hfiller]
  -- the first character that is no filler is a digit, neither the end nor a point
  split
  · next h => cases h
  · next h => exact absurd (List.cons.inj h).1 (ne_of_isDecimal hc rfl)
  · rfl

/-- A filling consists of zeros and underscores. -/
theorem Filling.isFiller {zeros : List Char} (h : Filling zeros) : ∀ c ∈ zeros, Check.isFiller c = true := by
  cases h with
  | none => simp
  | zeros hcs => exact List.forall_mem_cons.mpr ⟨rfl, hcs⟩

/-- The digits that count are those of the digits without zeros and underscores in front, if any are left. -/
theorem whole_dropLeadingZeros_of_joined {fillers fraction : List Char}
    (hfillers : ∀ c ∈ fillers, isFiller c = true) (hjoined : Joined (c :: cs) (ds.dropWhile (· == '0')))
    (hfraction : ZeroFraction fraction) (hfiller : ¬isFiller c = true) {es : List Char}
    (h : Numeral (fillers ++ (c :: cs ++ fraction)) es) :
    Whole (dropLeadingZeros (fillers ++ (c :: cs ++ fraction))) (significant ds) := by
  obtain ⟨hc, digits, hdigits⟩ := hjoined.eq_cons
  have hzero : c ≠ '0' := fun hc => hfiller (isFiller_iff.mpr (.inl hc))
  have hsignificant : significant ds = ds.dropWhile (· == '0') := by rw [significant, hdigits]
  have hwhole : Whole (c :: cs ++ fraction) (ds.dropWhile (· == '0')) := .intro hjoined hfraction
  rw [hsignificant]
  -- without a zero in front nothing is dropped; with one, all up to the first digit that counts
  rcases eq_zero_cons hfillers h with rfl | ⟨more, rfl⟩
  · rw [List.nil_append, List.cons_append, dropLeadingZeros.eq_2]
    · exact hwhole
    · rintro _ ⟨⟩
      exact hzero rfl
  · show Whole (dropLeadingZeros ('0' :: more ++ c :: (cs ++ fraction))) _
    rw [dropLeadingZeros_of_isDecimal (List.forall_mem_cons.mp hfillers).2 hc hzero]
    exact hwhole

/-- Where all digits are zeros, the last of them is kept. -/
theorem whole_dropLeadingZeros_of_zeros {fillers fraction : List Char}
    (hfillers : ∀ c ∈ fillers, isFiller c = true) (hlast : fillers.getLast? = some '0')
    (hdigits : ds.dropWhile (· == '0') = []) (hfraction : ZeroFraction fraction) {es : List Char}
    (h : Numeral (fillers ++ fraction) es) :
    Whole (dropLeadingZeros (fillers ++ fraction)) (significant ds) := by
  rw [significant, hdigits]
  rcases eq_zero_cons hfillers h with rfl | ⟨more, rfl⟩
  · cases hlast
  · rw [List.getLast?_cons, Option.some.injEq] at hlast
    rw [dropLeadingZeros_of_zeroFraction (List.forall_mem_cons.mp hfillers).2 hfraction, hlast]
    exact .intro (.last rfl) hfraction

/-- **What is left of a numeral** without the zeros at its start are the digits that count, with the fraction. -/
theorem Numeral.whole_dropLeadingZeros (h : Numeral cs ds) :
    Whole (dropLeadingZeros cs) (significant ds) := by
  have hnumeral := h
  obtain @⟨zeros, _, _, hzeros, @⟨joined, _, fraction, hjoined, hfraction⟩⟩ := h
  -- nothing but zeros, or a first digit that counts, up to which all of the numeral is filling
  rcases hjoined.dropWhile with ⟨hfillers, hlast, hdigits⟩ | hrest
  · have hall : ∀ c ∈ zeros ++ joined, isFiller c = true :=
      List.forall_mem_append.mpr ⟨hzeros.isFiller, hfillers⟩
    rw [← List.append_assoc] at hnumeral ⊢
    exact whole_dropLeadingZeros_of_zeros hall (by simp [List.getLast?_append, hlast]) hdigits hfraction
      hnumeral
  · obtain ⟨c, rest, hcons, hc⟩ := hrest.exists_cons
    have hfiller : ¬isFiller c = true := fun h => by
      have hhead := List.head?_dropWhile_not isFiller joined
      rw [hcons] at hhead
      simp [h] at hhead
    have hsplit : zeros ++ (joined ++ fraction) =
        zeros ++ joined.takeWhile isFiller ++ (c :: rest ++ fraction) := by
      rw [← hcons, List.append_assoc, ← List.append_assoc (joined.takeWhile isFiller),
        List.takeWhile_append_dropWhile]
    have hall : ∀ c ∈ zeros ++ joined.takeWhile isFiller, isFiller c = true :=
      List.forall_mem_append.mpr
        ⟨hzeros.isFiller, fun _ hc => List.all_eq_true.mp List.all_takeWhile _ hc⟩
    rw [hcons] at hrest
    rw [hsplit] at hnumeral ⊢
    exact whole_dropLeadingZeros_of_joined hall hrest hfraction hfiller hnumeral

/-! ## Numerals -/

/-- What has digits is a numeral. -/
theorem numeral_of_numeralDigits? (h : numeralDigits? cs = some ds) : Numeral cs ds := by
  rw [numeralDigits?] at h
  split at h
  · cases h
  · obtain ⟨zeros, hzeros, hcs⟩ := exists_dropLeadingZeros cs
    rw [hcs]
    exact .intro hzeros (joined_dropZeroFraction.mp (joinDigits?_eq_some_iff.mp h))

/-- The digits of a numeral are those that count. -/
theorem Numeral.numeralDigits?_eq (h : Numeral cs ds) : numeralDigits? cs = some (significant ds) := by
  have hwhole := joinDigits?_eq_some_iff.mpr (joined_dropZeroFraction.mpr h.whole_dropLeadingZeros)
  obtain ⟨c, rest, rfl, hc⟩ := h.exists_cons
  rw [Digits.isDecimal, Bool.and_eq_true, decide_eq_true_eq, decide_eq_true_eq] at hc
  rw [numeralDigits?, List.head?_cons, Option.bind_some, Digits.decimal?, if_pos hc]
  exact hwhole

/-- A text may have a sign in front. -/
theorem exists_splitSign (cs : List Char) :
    ∃ sign, Sign sign (splitSign cs).1 ∧ cs = sign ++ (splitSign cs).2 := by
  rw [splitSign.eq_def]
  split
  · exact ⟨['-'], .minus, rfl⟩
  · exact ⟨['+'], .plus, rfl⟩
  · exact ⟨[], .none, rfl⟩

/-- A numeral has no sign of its own. -/
theorem Sign.splitSign {sign : List Char} {isNegative : Bool} (h : Sign sign isNegative)
    (hcs : Numeral cs ds) : splitSign (sign ++ cs) = (isNegative, cs) := by
  -- a numeral without a sign starts with a digit, which is none
  cases h with
  | none =>
    obtain ⟨c, rest, rfl, hc⟩ := hcs.exists_cons
    rw [List.nil_append, Check.splitSign]
    · rintro _ ⟨⟩
      cases hc
    · rintro _ ⟨⟩
      cases hc
  | plus => rfl
  | minus => rfl

/-! ## Blanks -/

/-- What a text is without the code points of a class at its ends. -/
theorem exists_strip (drop : Codepoint → Bool) (t : Text) :
    ∃ before after, t = before ++ t.strip drop ++ after ∧ (∀ c ∈ before, drop c = true) ∧
      ∀ c ∈ after, drop c = true := by
  have hall {t : Text} : ∀ c ∈ t.takeWhile drop, drop c = true :=
    fun _ hc => List.all_eq_true.mp List.all_takeWhile _ hc
  refine ⟨t.takeWhile drop, (((t.dropWhile drop).reverse).takeWhile drop).reverse, ?_, hall,
    fun c hc => hall c (List.mem_reverse.mp hc)⟩
  rw [Text.strip, List.append_assoc, ← List.reverse_append, List.takeWhile_append_dropWhile,
    List.reverse_reverse, List.takeWhile_append_dropWhile]

/-- A text without such code points is left, whatever stands around it. -/
theorem strip_append {drop : Codepoint → Bool} {before t after : Text}
    (hbefore : ∀ c ∈ before, drop c = true) (ht : ∀ c ∈ t, drop c = false) (hne : t ≠ [])
    (hafter : ∀ c ∈ after, drop c = true) : (before ++ t ++ after).strip drop = t := by
  -- nothing is dropped from a text that starts with a character to keep; behind, the text is read backwards
  have hkeep {u v : Text} (hu : ∀ c ∈ u, drop c = false) (hne : u ≠ []) :
      (u ++ v).dropWhile drop = u ++ v := by
    cases u with
    | nil => exact absurd rfl hne
    | cons c u => rw [List.cons_append, List.dropWhile_cons_of_neg (by simp [hu c List.mem_cons_self])]
  have hreverse : ∀ c ∈ t.reverse, drop c = false := fun c hc => ht c (List.mem_reverse.mp hc)
  have hafter' : ∀ c ∈ after.reverse, drop c = true := fun c hc => hafter c (List.mem_reverse.mp hc)
  rw [Text.strip, List.append_assoc, List.dropWhile_append_of_pos hbefore, hkeep ht hne,
    List.reverse_append, List.dropWhile_append_of_pos hafter', ← List.append_nil t.reverse,
    hkeep hreverse (by simpa using hne), List.append_nil, List.reverse_reverse]

theorem not_isBlank_of_isDecimal (h : Digits.isDecimal c = true) : (Codepoint.scalar c).isBlank = false := by
  rw [Digits.isDecimal, Bool.and_eq_true, decide_eq_true_eq, decide_eq_true_eq] at h
  have hlow : 0x30 ≤ c.toNat := h.1
  have hhigh : c.toNat ≤ 0x39 := h.2
  have hvalue : (Codepoint.scalar c).value = c.toNat := rfl
  rw [Codepoint.isBlank, hvalue]
  generalize c.toNat = n at *
  interval_cases n <;> rfl

/-- Joined digits hold no blank. -/
theorem Joined.not_isBlank (h : Joined cs ds) : ∀ c ∈ cs, (Codepoint.scalar c).isBlank = false := by
  induction h with
  | last hc => exact List.forall_mem_singleton.mpr (not_isBlank_of_isDecimal hc)
  | next hc _ ih => exact List.forall_mem_cons.mpr ⟨not_isBlank_of_isDecimal hc, ih⟩
  | underscore hc _ ih =>
    exact List.forall_mem_cons.mpr ⟨not_isBlank_of_isDecimal hc, List.forall_mem_cons.mpr ⟨rfl, ih⟩⟩

/-- No part of a numeral is blank. -/
theorem Numeral.not_isBlank (h : Numeral cs ds) : ∀ c ∈ cs, (Codepoint.scalar c).isBlank = false := by
  have hzero {c : Char} (hc : c = '0') : (Codepoint.scalar c).isBlank = false := by
    subst hc
    rfl
  obtain ⟨hzeros, hjoined, hfraction⟩ := h
  refine List.forall_mem_append.mpr ⟨fun c hc => ?_, List.forall_mem_append.mpr ⟨hjoined.not_isBlank, ?_⟩⟩
  -- the zeros in front, the digits, and the fraction
  · rcases isFiller_iff.mp (hzeros.isFiller c hc) with rfl | rfl <;> rfl
  · cases hfraction with
    | none => exact List.forall_mem_nil _
    | zeros hcs =>
      exact List.forall_mem_cons.mpr ⟨rfl, List.forall_mem_cons.mpr ⟨rfl, fun c hc => hzero (hcs c hc)⟩⟩

/-- Nor does a sign. -/
theorem Sign.not_isBlank {isNegative : Bool} (h : Sign cs isNegative) :
    ∀ c ∈ cs, (Codepoint.scalar c).isBlank = false := by
  cases h with
  | none => exact List.forall_mem_nil _
  | plus => exact List.forall_mem_singleton.mpr rfl
  | minus => exact List.forall_mem_singleton.mpr rfl

/-! ## Texts and Numbers -/

/-- A text has characters if it holds no lone surrogate. -/
theorem toChars?_eq_some_iff {t : Text} : t.toChars? = some cs ↔ t = Text.ofChars cs := by
  -- on the text: a surrogate has no character
  induction t generalizing cs with
  | nil => cases cs <;> simp [Text.toChars?, Text.ofChars]
  | cons c t ih =>
    cases c with
    | scalar c =>
      rw [Text.toChars?, Option.map_eq_some_iff]
      cases cs with
      | nil => simp [Text.ofChars]
      | cons d cs => simp [ih, Text.ofChars, and_comm]
    | surrogate o => cases cs <;> simp [Text.toChars?, Text.ofChars]

/-- **A text is converted to an integer when it denotes it.** -/
theorem integerOfText_eq_ok_iff {t : Text} {n : ℤ} : integerOfText t = .ok n ↔ Denotes t n := by
  constructor
  · intro h
    obtain ⟨before, after, ht, hbefore, hafter⟩ := exists_strip Codepoint.isBlank t
    -- each test of the conversion that succeeds gives one part of the grammar
    rw [integerOfText] at h
    split at h
    · cases h
    next cs hcs =>
    obtain ⟨sign, hsign, hsplit⟩ := exists_splitSign cs
    rw [toChars?_eq_some_iff.mp hcs, hsplit] at ht
    dsimp only at h
    split at h
    · cases h
    next digits hdigits =>
    split at h
    · cases h
    next hshort =>
    cases h
    have hlength := (List.dropWhile_sublist (· == '0') (l := digits)).length_le
    rw [ht]
    exact .intro hbefore hafter hsign (numeral_of_numeralDigits? hdigits)
      (hlength.trans (Nat.not_lt.mp hshort))
  · rintro @⟨before, after, sign, cs, ds, isNegative, hbefore, hafter, hsign, hnumeral, hshort⟩
    -- no part of the numeral is blank, so stripping takes the blanks off and nothing else
    have hblank : ∀ c ∈ Text.ofChars (sign ++ cs), c.isBlank = false :=
      List.forall_mem_map.mpr (List.forall_mem_append.mpr ⟨hsign.not_isBlank, hnumeral.not_isBlank⟩)
    have hne : Text.ofChars (sign ++ cs) ≠ [] := by
      obtain ⟨c, rest, rfl, -⟩ := hnumeral.exists_cons
      simp [Text.ofChars]
    rw [integerOfText, strip_append hbefore hblank hne hafter, toChars?_eq_some_iff.mpr rfl]
    dsimp only
    rw [hsign.splitSign hnumeral]
    dsimp only
    rw [hnumeral.numeralDigits?_eq]
    dsimp only
    rw [if_neg (Nat.not_lt.mpr ((length_significant ds).mpr hshort)), value_significant]

/-- A number is converted to the integer that it is, if it lies strictly within 64 bits. -/
theorem integerOfFloat_eq_ok_iff {x : Binary64} {n : ℤ} :
    integerOfFloat x = .ok n ↔
      x.toInt? = some n ∧ -0x8000000000000000 < n ∧ n < 0x8000000000000000 := by
  unfold integerOfFloat
  cases x with
  | finite => cases h : Binary64.toInt? _ <;> grind [Checked.fail, Binary64.isFinite]
  | _ => simp [Binary64.isFinite, Binary64.toInt?, Checked.fail]

end Check

end SchemaGraft
