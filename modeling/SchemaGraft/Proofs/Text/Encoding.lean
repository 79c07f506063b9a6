import Mathlib.Tactic
import SchemaGraft.Text.Newline
import SchemaGraft.Text.Utf8

/-!
# Encoding Texts

A text can be written into a file when it holds no lone surrogate, and a file of it is then read
back as the same characters.

## Architecture

- **Encodable texts**: `Text.Encodable`, and `Text.scalars` for the characters of a text.
- **UTF-8**: the machine reads the bytes of one character after the other
  (`decodeFrom_encodeChar`), so `decode_encodeChars` holds for all of them.
- **Line endings**: `unifyNewlines_eq_self` for texts without carriage returns.
-/

namespace SchemaGraft

namespace Text

/-! ## Encodable Texts -/

/-- A text without lone surrogates. -/
def Encodable (t : Text) : Prop :=
  ∀ c ∈ t, c.isSurrogate = false

instance (t : Text) : Decidable t.Encodable :=
  inferInstanceAs (Decidable (∀ c ∈ t, c.isSurrogate = false))

/-- The characters of a text; lone surrogates are left out. -/
def scalars (t : Text) : List Char :=
  t.filterMap fun
    | .scalar c => some c
    | .surrogate _ => none

@[simp] theorem scalars_nil : scalars [] = [] := rfl

@[simp] theorem scalars_cons (c : Char) (t : Text) : scalars (.scalar c :: t) = c :: scalars t := rfl

@[simp] theorem scalars_append (s t : Text) : scalars (s ++ t) = scalars s ++ scalars t :=
  List.filterMap_append

@[simp] theorem scalars_ofChars (cs : List Char) : scalars (ofChars cs) = cs := by
  induction cs with
  | nil => rfl
  | cons c cs ih => exact congrArg (c :: ·) ih

@[simp] theorem scalars_ofString (s : String) : scalars (ofString s) = s.toList :=
  scalars_ofChars s.toList

@[simp] theorem scalars_replicate (n : ℕ) (c : Char) :
    scalars (List.replicate n (.scalar c)) = List.replicate n c := by
  induction n with
  | zero => rfl
  | succ n ih => exact congrArg (c :: ·) ih

/-- A text can be encoded when both of its parts can. -/
theorem encodable_append {s t : Text} : Encodable (s ++ t) ↔ Encodable s ∧ Encodable t :=
  List.forall_mem_append

@[simp] theorem encodable_nil : Encodable [] := by simp [Encodable]

@[simp] theorem encodable_cons (c : Char) (t : Text) :
    Encodable (.scalar c :: t) ↔ Encodable t := by
  simp [Encodable, Codepoint.isSurrogate]

/-- Characters can always be encoded. -/
@[simp] theorem encodable_ofChars (cs : List Char) : Encodable (ofChars cs) := by
  intro c hc
  obtain ⟨d, -, rfl⟩ := List.mem_map.mp hc
  rfl

@[simp] theorem encodable_ofString (s : String) : Encodable (ofString s) :=
  encodable_ofChars s.toList

end Text

namespace Utf8

/-! ## Encoding -/

/-- A text is encoded character by character, unless it holds a lone surrogate. -/
theorem encodeFrom_ok_iff {position : ℕ} {t : Text} {bs : Bytes} :
    encodeFrom position t = .ok bs ↔ t.Encodable ∧ bs = encodeChars t.scalars := by
  induction t generalizing position bs with
  | nil => simp [encodeFrom, encodeChars, eq_comm]
  | cons c t ih =>
    cases c with
    -- here the encoding stops, whatever follows
    | surrogate o => simp [encodeFrom, Text.Encodable, Codepoint.isSurrogate]
    | scalar c =>
      rw [encodeFrom, Text.encodable_cons, Text.scalars_cons, encodeChars, List.flatMap_cons]
      constructor
      · intro h
        cases hrest : encodeFrom (position + 1) t with
        | error f => simp [hrest, Except.map] at h
        | ok bs' =>
          obtain ⟨ht, rfl⟩ := ih.mp hrest
          simp only [hrest, Except.map, Except.ok.injEq] at h
          exact ⟨ht, h.symm⟩
      · rintro ⟨ht, rfl⟩
        rw [ih.mpr ⟨ht, rfl⟩]
        rfl

/-- Exactly the texts without lone surrogates have an encoding, that of their characters. -/
theorem encode_ok_iff {t : Text} {bs : Bytes} :
    encode t = .ok bs ↔ t.Encodable ∧ bs = encodeChars t.scalars :=
  encodeFrom_ok_iff

/-! ## Decoding -/

/-- A number of eight bits is one of a byte. -/
theorem toNat_toUInt8 {n : ℕ} (h : n < 256) : n.toUInt8.toNat = n := by
  rw [Nat.toUInt8_eq, UInt8.toNat_ofNat', Nat.mod_eq_of_lt h]

/-- The first of two bytes. -/
theorem openWith_two {k : ℕ} (hlo : 2 ≤ k) (hhi : k < 32) :
    openWith (0xC0 + k).toUInt8 = .opens ⟨[(0xC0 + k).toUInt8], k, 0, 0x80, 0xBF⟩ := by
  interval_cases k <;> rfl

/-- The first of three bytes; the second one must not give an overlong form or a surrogate. -/
theorem openWith_three {k : ℕ} (h : k < 16) :
    openWith (0xE0 + k).toUInt8 = .opens ⟨[(0xE0 + k).toUInt8], k, 1,
      if k = 0 then 0xA0 else 0x80, if k = 13 then 0x9F else 0xBF⟩ := by
  interval_cases k <;> rfl

/-- The first of four bytes; the second one must not give an overlong form or too large a number. -/
theorem openWith_four {k : ℕ} (h : k < 5) :
    openWith (0xF0 + k).toUInt8 = .opens ⟨[(0xF0 + k).toUInt8], k, 2,
      if k = 0 then 0x90 else 0x80, if k = 4 then 0x8F else 0xBF⟩ := by
  interval_cases k <;> rfl

/-- A further byte of a character, by the six bits that it carries. -/
theorem next_toUInt8 {p : Partial} {k : ℕ} (h : k < 64) (hlo : p.low.toNat ≤ 0x80 + k)
    (hhi : 0x80 + k ≤ p.high.toNat) :
    p.next (0x80 + k).toUInt8 =
      match p.missing with
      | 0 => .done (Char.ofNat (p.bits * 64 + k))
      | n + 1 => .more ⟨p.read ++ [(0x80 + k).toUInt8], p.bits * 64 + k, n, 0x80, 0xBF⟩ := by
  have hnat : (0x80 + k).toUInt8.toNat = 0x80 + k := toNat_toUInt8 (by omega)
  rw [Partial.next, if_pos ⟨by rwa [UInt8.le_iff_toNat_le, hnat],
    by rwa [UInt8.le_iff_toNat_le, hnat]⟩]
  cases p.missing <;> simp only [hnat, Nat.add_sub_cancel_left]

/-- The number of a character is below the surrogates or above them. -/
theorem toNat_valid (c : Char) : c.toNat < 0xD800 ∨ 0xE000 ≤ c.toNat ∧ c.toNat < 0x110000 := by
  rcases c.valid with h | ⟨hlo, hhi⟩
  · exact .inl h
  · exact .inr ⟨hlo, hhi⟩

/-- The machine reads the bytes of a character and is between characters again. -/
theorem decodeFrom_encodeChar (c : Char) (rest : Bytes) (position : ℕ) :
    decodeFrom position none (encodeChar c ++ rest) =
      (decodeFrom (position + (encodeChar c).length) none rest).map (c :: ·) := by
  have hvalid := toNat_valid c
  have hchar : Char.ofNat c.toNat = c := Char.ofNat_toNat c
  rw [encodeChar]
  generalize hn : c.toNat = n at *
  -- the number of bytes depends on the number of the character, and so does the byte that opens them
  split_ifs with h1 h2 h3
  · have hopen : openWith n.toUInt8 = .whole (Char.ofNat n) := by
      rw [openWith, if_pos (by rwa [UInt8.lt_iff_toNat_lt, toNat_toUInt8 (by omega)]),
        toNat_toUInt8 (by omega)]
    simp only [List.cons_append, List.nil_append, decodeFrom, hopen, hchar, List.length_singleton]
  · simp only [List.cons_append, List.nil_append, decodeFrom]
    rw [openWith_two (by omega) (by omega)]
    dsimp only
    rw [next_toUInt8 (by omega) (by simp) (by simp; omega)]
    simp only [show n / 64 * 64 + n % 64 = n by omega, hchar]
    rfl
  · simp only [List.cons_append, List.nil_append, decodeFrom]
    rw [openWith_three (by omega)]
    dsimp only
    rw [next_toUInt8 (by omega) (by dsimp only; split <;> simp; omega)
      (by dsimp only; split <;> simp <;> omega)]
    dsimp only
    rw [next_toUInt8 (by omega) (by simp) (by simp; omega)]
    simp only [show (n / 4096 * 64 + n / 64 % 64) * 64 + n % 64 = n by omega, hchar]
    rfl
  · simp only [List.cons_append, List.nil_append, decodeFrom]
    rw [openWith_four (by omega)]
    dsimp only
    rw [next_toUInt8 (by omega) (by dsimp only; split <;> simp; omega)
      (by dsimp only; split <;> simp <;> omega)]
    dsimp only
    rw [next_toUInt8 (by omega) (by simp) (by simp; omega)]
    dsimp only
    rw [next_toUInt8 (by omega) (by simp) (by simp; omega)]
    simp only [show ((n / 262144 * 64 + n / 4096 % 64) * 64 + n / 64 % 64) * 64 + n % 64 = n by
      omega, hchar]
    rfl

/-- Encoded characters are decoded again, wherever they stand. -/
theorem decodeFrom_encodeChars (cs : List Char) (position : ℕ) :
    decodeFrom position none (encodeChars cs) = .ok cs := by
  induction cs generalizing position with
  | nil => rfl
  | cons c cs ih =>
    rw [encodeChars, List.flatMap_cons, decodeFrom_encodeChar, ← encodeChars, ih]
    rfl

/-- **What was encoded is decoded to the same characters.** -/
theorem decode_encodeChars (cs : List Char) : decode (encodeChars cs) = .ok cs :=
  decodeFrom_encodeChars cs 0

/-- No two texts have the same bytes. -/
theorem encodeChars_injective : Function.Injective encodeChars := by
  intro cs ds h
  have hdecode := decode_encodeChars cs
  rw [h, decode_encodeChars] at hdecode
  exact (Except.ok.inj hdecode).symm

end Utf8

/-! ## Line Endings -/

/-- A text without carriage returns is left as it is. -/
theorem unifyNewlines_eq_self {cs : List Char} (h : '\r' ∉ cs) : unifyNewlines cs = cs := by
  induction cs with
  | nil => rfl
  | cons c cs ih =>
    obtain ⟨hc, hcs⟩ := List.ne_and_not_mem_of_not_mem_cons h
    rw [unifyNewlines.eq_4 _ _ (fun _ heq _ => hc heq.symm) (fun heq => hc heq.symm), ih hcs]

end SchemaGraft
