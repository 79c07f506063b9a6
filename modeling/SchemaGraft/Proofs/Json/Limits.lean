import Mathlib.Data.List.TakeWhile
import SchemaGraft.Proofs.Json.Members
import SchemaGraft.Json.Reader

/-!
# The Limits of the Reader

The reader gives up on a document for two reasons that are not in its grammar: a number has too many
digits, or too many arrays and objects are open at once.  It does so only where the text has such a number,
or so many brackets.  The bound on its own steps, which the length of the text gives, is never met.

## Architecture

- **Texts**: `Json.openings` counts the brackets of a text that open something; `Json.Modest` is a text
  within both limits.
- **Readers**: `Json.Bounded` is what is known of the result of a reader: how far it has come, or why it has
  given up.  `Json.Bounded.bind` goes through the readers.
- **Main result**: `Json.read_of_modest`.
-/

namespace SchemaGraft

namespace Json

/-! ## Texts -/

/-- Does the character open an array or an object? -/
def opens (c : Char) : Bool :=
  c == '[' || c == '\x7b'

/-- The number of brackets that open an array or an object, inside strings as well. -/
def openings (cs : List Char) : ℕ :=
  cs.countP opens

/-- A text within the limits of the reader. -/
structure Modest (cs : List Char) : Prop where
  openings : openings cs ≤ maxDepth
  digits : ∀ run, run <:+: cs → (∀ c ∈ run, Digits.isDecimal c = true) → run.length ≤ maxIntegerDigits

/-- A short text is within the limits. -/
theorem modest_of_length {cs : List Char} (h : cs.length ≤ maxDepth) : Modest cs where
  openings := List.countP_le_length.trans h
  digits _ hrun _ := (hrun.length_le.trans h).trans (by decide)

theorem openings_le_of_suffix {cs cs' : List Char} (h : cs' <:+ cs) : openings cs' ≤ openings cs :=
  h.sublist.countP_le

theorem openings_cons {c : Char} (h : opens c = true) (cs : List Char) :
    openings (c :: cs) = openings cs + 1 :=
  List.countP_cons_of_pos h

/-! ## Readers -/

/-- The result of a reader on a text, with a number of levels left: it leaves a part of the text that is
shorter than `bound`, or has given up for a reason that is in the text. -/
inductive Bounded {α : Type} (depth : ℕ) (cs : List Char) (bound : ℕ) :
    Except Failure (α × List Char) → Prop where
  | read {a : α} {rest : List Char} (suffix : rest <:+ cs) (short : rest.length < bound) :
    Bounded depth cs bound (.ok (a, rest))
  | complained {c : Complaint} {left : ℕ} : Bounded depth cs bound (.error (.complain c left))
  | longInteger {run : List Char} (part : run <:+: cs) (decimal : ∀ c ∈ run, Digits.isDecimal c = true)
      (long : maxIntegerDigits < run.length) : Bounded depth cs bound (.error (.longInteger run.length))
  | tooDeep (deep : depth < openings cs) : Bounded depth cs bound (.error .tooDeep)

namespace Bounded

variable {α β : Type} {depth depth' bound bound' : ℕ} {cs cs' : List Char}
  {x : Except Failure (α × List Char)}

/-- What is known of a part of a text is known of the text, whose other brackets may have used up
levels. -/
theorem of_suffix (h : Bounded depth' cs' bound' x) (hsuffix : cs' <:+ cs) (hbound : bound' ≤ bound)
    (hdepth : depth + openings cs' ≤ depth' + openings cs) : Bounded depth cs bound x := by
  cases h with
  | read suffix short => exact .read (suffix.trans hsuffix) (short.trans_le hbound)
  | complained => exact .complained
  | longInteger part decimal long => exact .longInteger (part.trans hsuffix.isInfix) decimal long
  | tooDeep deep => exact .tooDeep (by omega)

/-- What is known of a later part of a text is known of the text. -/
theorem later (h : Bounded depth cs' bound' x) (hsuffix : cs' <:+ cs) (hbound : bound' ≤ bound) :
    Bounded depth cs bound x :=
  h.of_suffix hsuffix hbound (Nat.add_le_add_left (openings_le_of_suffix hsuffix) depth)

theorem behind (h : Bounded depth cs cs.length x) (front : List Char) :
    Bounded depth (front ++ cs) (front ++ cs).length x :=
  h.later (List.suffix_append front cs) (List.suffix_append front cs).length_le

/-- What is read behind an opening bracket, which takes a level. -/
theorem inside {c : Char} (hc : opens c = true) (h : Bounded depth cs' cs'.length x)
    (hsuffix : cs' <:+ cs) : Bounded (depth + 1) (c :: cs) (c :: cs).length x := by
  have hopen := openings_cons hc cs
  have hfewer := openings_le_of_suffix hsuffix
  have hlonger := hsuffix.trans (List.suffix_cons c cs)
  exact h.of_suffix hlonger hlonger.length_le (by omega)

theorem ok_of_append (a : α) {front : List Char} (hfront : front ≠ []) (rest : List Char) :
    Bounded depth (front ++ rest) (front ++ rest).length (.ok (a, rest)) := by
  have hpos := List.length_pos_iff.mpr hfront
  exact .read (List.suffix_append front rest) (by rw [List.length_append]; omega)

/-- A reader that goes on where another one stopped is bounded by what the first has left. -/
theorem bind {f : α × List Char → Except Failure (β × List Char)} (h : Bounded depth cs bound' x)
    (hf : ∀ a rest, rest <:+ cs → rest.length < bound' → Bounded depth cs bound (f (a, rest))) :
    Bounded depth cs bound (x >>= f) := by
  cases h with
  | read suffix short => exact hf _ _ suffix short
  | complained => exact .complained
  | longInteger part decimal long => exact .longInteger part decimal long
  | tooDeep deep => exact .tooDeep deep

/-- What follows only shapes the result. -/
theorem map (h : Bounded depth cs bound x) (g : α × List Char → β) :
    Bounded depth cs bound (x >>= fun r => pure (g r, r.2)) :=
  h.bind fun _ _ suffix short => .read suffix short

end Bounded

/-! ### Leaves -/

theorem skipBlanks_suffix (cs : List Char) : skipBlanks cs <:+ cs :=
  List.dropWhile_suffix _

/-- What stands behind a mark that may have blanks in front. -/
theorem behind_mark {cs after : List Char} {mark : Char} (h : skipBlanks cs = mark :: after) :
    after <:+ cs ∧ after.length < cs.length := by
  have hblanks := skipBlanks_suffix cs
  rw [h] at hblanks
  exact ⟨(List.suffix_cons mark after).trans hblanks, hblanks.length_le⟩

/-- A string is read up to its closing quotation mark. -/
theorem bounded_readString (depth start : ℕ) (cs : List Char) :
    Bounded depth cs cs.length (readString start cs) := by
  fun_induction readString start cs with
  | case2 rest => exact .read (List.suffix_cons '"' rest) (Nat.lt_succ_self _)
  | case4 a b c d head rest unit hunit ih =>
    exact (ih.map fun r => pushUnit unit r.1).behind ['\\', 'u', a, b, c, d]
  | case7 c rest hunits hunit e he ih => exact (ih.map fun r => .scalar e :: r.1).behind ['\\', c]
  | case10 c rest hquote hend hunits hunit hescape hcontrol ih =>
    exact (ih.map fun r => .scalar c :: r.1).behind [c]
  | _ => exact .complained

theorem spanDigits_append_eq (cs : List Char) : (spanDigits cs).1 ++ (spanDigits cs).2 = cs :=
  List.takeWhile_append_dropWhile

theorem readWhole_append_eq (cs : List Char) : (readWhole cs).1 ++ (readWhole cs).2 = cs := by
  rw [readWhole.eq_def]
  split
  · rfl
  · exact spanDigits_append_eq cs

theorem readWhole_isDecimal (cs : List Char) : ∀ c ∈ (readWhole cs).1, Digits.isDecimal c = true := by
  intro c hc
  rw [readWhole.eq_def] at hc
  split at hc
  · rw [List.mem_singleton.mp hc]
    rfl
  · exact List.mem_takeWhile_imp hc

theorem readFraction_suffix (cs : List Char) : (readFraction cs).2 <:+ cs := by
  rw [readFraction.eq_def]
  split
  · next rest =>
    dsimp only
    split
    · exact List.suffix_rfl
    · exact (List.dropWhile_suffix _).trans (List.suffix_cons '.' rest)
  · exact List.suffix_rfl

/-- Behind an exponent a part of the text is left. -/
theorem readExponent_suffix (cs : List Char) : (readExponent cs).2 <:+ cs := by
  -- a mark without digits behind it is left to be read again
  have hdigits {body : List Char} (h : body <:+ cs) (n : Option ℤ) :
      (if (spanDigits body).1.isEmpty = true then (none, cs) else (n, (spanDigits body).2)).2 <:+
        cs := by
    split
    · exact List.suffix_rfl
    · exact (List.dropWhile_suffix _).trans h
  rw [readExponent.eq_def]
  split
  · next mark rest =>
    have hmark : rest <:+ mark :: rest := List.suffix_cons mark rest
    split
    · -- a sign may stand between the mark and the digits
      dsimp only
      split
      · exact hdigits ((List.suffix_cons _ _).trans hmark) _
      · exact hdigits ((List.suffix_cons _ _).trans hmark) _
      · exact hdigits hmark _
    · exact List.suffix_rfl
  · exact List.suffix_rfl

/-- A number without its sign is read from its digits on, and refused only for their number. -/
theorem bounded_unsigned (depth : ℕ) {cs body : List Char} (hbody : body <:+ cs)
    {r : Except Failure (Json × List Char)} {isWhole : Bool} {n x : Json}
    (h : (if (readWhole body).1.isEmpty = true then none
      else if isWhole = true then
        if maxIntegerDigits < (readWhole body).1.length then
          some (.error (.longInteger (readWhole body).1.length))
        else some (.ok (n, (readExponent (readFraction (readWhole body).2).2).2))
      else some (.ok (x, (readExponent (readFraction (readWhole body).2).2).2))) = some r) :
    Bounded depth cs cs.length r := by
  have hwhole := readWhole_append_eq body
  split at h
  · cases h
  · next hne =>
    -- the digits are a part of the text, and what is left is shorter by at least one of them
    have hafter : (readExponent (readFraction (readWhole body).2).2).2 <:+ (readWhole body).2 :=
      (readExponent_suffix _).trans (readFraction_suffix _)
    have hlength := congrArg List.length hwhole
    have hpos : 0 < (readWhole body).1.length := by
      rw [List.length_pos_iff]
      simpa using hne
    have hread (v : Json) : Bounded depth cs cs.length
        (.ok (v, (readExponent (readFraction (readWhole body).2).2).2)) := by
      refine .read ((hafter.trans ⟨_, hwhole⟩).trans hbody) ?_
      have hshort := hafter.length_le
      have hlong := hbody.length_le
      rw [List.length_append] at hlength
      omega
    split at h
    · split at h
      · next hlong =>
        cases h
        have hpart : (readWhole body).1 <:+: body := ⟨[], _, hwhole⟩
        exact .longInteger (hpart.trans hbody.isInfix) (readWhole_isDecimal body) hlong
      · cases h
        exact hread n
    · cases h
      exact hread x

/-- With a sign or without, reading a number keeps within these bounds. -/
theorem bounded_readNumber (depth : ℕ) {cs : List Char} {r : Except Failure (Json × List Char)}
    (h : readNumber cs = some r) : Bounded depth cs cs.length r := by
  rw [readNumber.eq_def] at h
  split at h
  next negative body hsigned =>
    have hbody : body <:+ cs := by
      split at hsigned
      · cases hsigned
        exact List.suffix_cons '-' body
      · cases hsigned
        exact List.suffix_rfl
    exact bounded_unsigned depth hbody h

/-! ### Values -/

/-- A value is bounded if what stands in its brackets is. -/
theorem bounded_readValue_succ {fuel : ℕ}
    (hitems : ∀ {depth : ℕ} {cs : List Char}, 2 * cs.length + 2 ≤ fuel →
      Bounded depth cs cs.length (readItems fuel depth cs))
    (hmembers : ∀ {depth : ℕ} {cs : List Char}, 2 * cs.length + 2 ≤ fuel →
      Bounded depth cs cs.length (readMembers fuel depth cs))
    {depth : ℕ} {cs : List Char} (hfuel : 2 * cs.length + 1 ≤ fuel + 1) :
    Bounded depth cs cs.length (readValue (fuel + 1) depth cs) := by
  -- an open bracket takes a level, and the text behind it has one bracket less
  rw [readValue.eq_def]
  dsimp only
  split
  case h_1 rest =>
    have hread := bounded_readString depth ('"' :: rest).length rest
    exact (hread.map fun r => Json.text r.1).behind ['"']
  case h_2 rest =>
    have hopen := openings_cons (c := '\x7b') rfl rest
    have hblanks := skipBlanks_suffix rest
    have hlength := hblanks.length_le
    rw [List.length_cons] at hfuel
    split
    · exact .tooDeep (by omega)
    · split
      · next after hafter =>
        rw [hafter] at hblanks
        exact (Bounded.ok_of_append (Json.object []) (List.cons_ne_nil _ []) after).inside rfl hblanks
      · exact ((hmembers (by omega)).map fun r => Json.object (ofPairs r.1)).inside rfl hblanks
  case h_3 rest =>
    have hopen := openings_cons (c := '[') rfl rest
    have hblanks := skipBlanks_suffix rest
    have hlength := hblanks.length_le
    rw [List.length_cons] at hfuel
    split
    · exact .tooDeep (by omega)
    · split
      · next after hafter =>
        rw [hafter] at hblanks
        exact (Bounded.ok_of_append (Json.list []) (List.cons_ne_nil _ []) after).inside rfl hblanks
      · exact ((hitems (by omega)).map fun r => Json.list r.1).inside rfl hblanks
  case h_4 rest => exact .ok_of_append _ (List.cons_ne_nil 'n' ['u', 'l', 'l']) rest
  case h_5 rest => exact .ok_of_append _ (List.cons_ne_nil 't' ['r', 'u', 'e']) rest
  case h_6 rest => exact .ok_of_append _ (List.cons_ne_nil 'f' ['a', 'l', 's', 'e']) rest
  case h_7 rest => exact .ok_of_append _ (List.cons_ne_nil 'N' ['a', 'N']) rest
  case h_8 rest =>
    exact .ok_of_append _ (List.cons_ne_nil 'I' ['n', 'f', 'i', 'n', 'i', 't', 'y']) rest
  case h_9 rest =>
    exact .ok_of_append _ (List.cons_ne_nil '-' ['I', 'n', 'f', 'i', 'n', 'i', 't', 'y']) rest
  case h_10 =>
    cases hn : readNumber cs with
    | none => exact .complained
    | some r => exact bounded_readNumber depth hn

/-- The items of an array are bounded if values are, and the items behind them. -/
theorem bounded_readItems_succ {fuel : ℕ}
    (hvalue : ∀ {depth : ℕ} {cs : List Char}, 2 * cs.length + 1 ≤ fuel →
      Bounded depth cs cs.length (readValue fuel depth cs))
    (hitems : ∀ {depth : ℕ} {cs : List Char}, 2 * cs.length + 2 ≤ fuel →
      Bounded depth cs cs.length (readItems fuel depth cs))
    {depth : ℕ} {cs : List Char} (hfuel : 2 * cs.length + 2 ≤ fuel + 1) :
    Bounded depth cs cs.length (readItems (fuel + 1) depth cs) := by
  -- a value, and then the end of the array or a comma
  rw [readItems]
  refine (hvalue (by omega)).bind fun v rest hrest hshort => ?_
  dsimp only
  split
  · next after hafter =>
    obtain ⟨hsuffix, hlength⟩ := behind_mark hafter
    exact .read (hsuffix.trans hrest) (hlength.trans hshort)
  · next after hafter =>
    obtain ⟨hsuffix, hlength⟩ := behind_mark hafter
    have hblanks := skipBlanks_suffix after
    have hless := hblanks.length_le
    exact ((hitems (by omega)).map fun r => v :: r.1).later
      (hblanks.trans (hsuffix.trans hrest)) (by omega)
  · exact .complained

/-- So are the members of an object. -/
theorem bounded_readMembers_succ {fuel : ℕ}
    (hvalue : ∀ {depth : ℕ} {cs : List Char}, 2 * cs.length + 1 ≤ fuel →
      Bounded depth cs cs.length (readValue fuel depth cs))
    (hmembers : ∀ {depth : ℕ} {cs : List Char}, 2 * cs.length + 2 ≤ fuel →
      Bounded depth cs cs.length (readMembers fuel depth cs))
    {depth : ℕ} {cs : List Char} (hfuel : 2 * cs.length + 2 ≤ fuel + 1) :
    Bounded depth cs cs.length (readMembers (fuel + 1) depth cs) := by
  -- a name, a colon, a value, and then the end of the object or a comma
  rw [readMembers.eq_def]
  dsimp only
  split
  · next quoted =>
    rw [List.length_cons] at hfuel
    have hquoted := List.suffix_cons '"' quoted
    refine ((bounded_readString depth _ quoted).later hquoted le_rfl).bind
      fun name rest hrest hshort => ?_
    dsimp only
    split
    · next colon hcolon =>
      obtain ⟨hsuffix, hlength⟩ := behind_mark hcolon
      have hblanks := skipBlanks_suffix colon
      have hless := hblanks.length_le
      have hcolon : Bounded depth (skipBlanks colon) _ _ := hvalue (by omega)
      refine (hcolon.later (hblanks.trans (hsuffix.trans hrest)) le_rfl).bind
        fun v rest hrest hvalueShort => ?_
      dsimp only
      split
      · next after hafter =>
        obtain ⟨hsuffix, hlength⟩ := behind_mark hafter
        refine .read (hsuffix.trans hrest) ?_
        rw [List.length_cons]
        omega
      · next after hafter =>
        obtain ⟨hsuffix, hlength⟩ := behind_mark hafter
        have hblanks := skipBlanks_suffix after
        have hless := hblanks.length_le
        refine ((hmembers (by omega)).map fun r => (name, v) :: r.1).later
          (hblanks.trans (hsuffix.trans hrest)) ?_
        rw [List.length_cons]
        omega
      · exact .complained
    · exact .complained
  · exact .complained

/-- **What the three readers return**, when they may take enough steps for the text. -/
theorem bounded_reading (fuel : ℕ) :
    (∀ {depth : ℕ} {cs : List Char}, 2 * cs.length + 1 ≤ fuel →
      Bounded depth cs cs.length (readValue fuel depth cs)) ∧
    (∀ {depth : ℕ} {cs : List Char}, 2 * cs.length + 2 ≤ fuel →
      Bounded depth cs cs.length (readItems fuel depth cs)) ∧
    (∀ {depth : ℕ} {cs : List Char}, 2 * cs.length + 2 ≤ fuel →
      Bounded depth cs cs.length (readMembers fuel depth cs)) := by
  induction fuel with
  | zero => exact ⟨fun h => by omega, fun h => by omega, fun h => by omega⟩
  | succ fuel ih =>
    obtain ⟨hvalue, hitems, hmembers⟩ := ih
    exact ⟨bounded_readValue_succ hitems hmembers, bounded_readItems_succ hvalue hitems,
      bounded_readMembers_succ hvalue hmembers⟩

/-- Why a whole text is not read. -/
theorem bounded_of_readAll_eq_error {cs : List Char} {f : Failure} (h : readAll cs = .error f) :
    Bounded maxDepth cs cs.length (.error f : Except Failure (Json × List Char)) := by
  have hblanks := skipBlanks_suffix cs
  have hlength := hblanks.length_le
  -- the fuel of a whole text is enough for the value at its start
  have hvalue : Bounded maxDepth (skipBlanks cs) _ (readValue (2 * cs.length + 2) _ _) :=
    (bounded_reading _).1 (by omega)
  rw [readAll] at h
  split at h
  · cases h
    exact .complained
  · cases hr : readValue (2 * cs.length + 2) maxDepth (skipBlanks cs) with
    | ok r =>
      rw [hr] at h
      dsimp only [Bind.bind, Except.bind] at h
      split at h
      · cases h
      · cases h
        exact .complained
    | error g =>
      rw [hr] at h hvalue
      cases h
      exact hvalue.later hblanks hlength

/-! ## Main Result -/

/-- **A text within the limits is read or refused for its grammar.** -/
theorem read_of_modest {cs : List Char} (h : Modest cs) :
    (∃ v, read cs = .ok v) ∨ ∃ fault, read cs = .error (.grammar fault) := by
  rw [read]
  cases hr : readAll cs with
  | ok v => exact .inl ⟨v, rfl⟩
  | error f =>
    -- a modest text has neither the long integer nor the nesting that a fault would take
    cases bounded_of_readAll_eq_error hr with
    | complained => exact .inr ⟨_, rfl⟩
    | longInteger part decimal long =>
      exact absurd (h.digits _ part decimal) (Nat.not_le.mpr long)
    | tooDeep deep => exact absurd h.openings (Nat.not_le.mpr deep)

end Json

end SchemaGraft
