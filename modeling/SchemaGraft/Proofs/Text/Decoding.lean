import Mathlib
import SchemaGraft.Proofs.Text.Encoding

/-!
# Lossy Decoding

What the lossy decoder gives, told by the strict one: the strict decoder reports the first ill-formed part
of a byte sequence; the part becomes one `U+FFFD`, and decoding goes on behind it.

## Architecture

- **Pieces**: `feed_append`; the machine may stop after any byte and go on later.
- **Open characters**: `Partial.Opened` is all that the machine knows about a character that it has begun;
  each further byte keeps it (`Partial.Opened.more`) or ends the character (`Partial.Opened.done`).
- **First parts**: `start_cons`, every byte sequence starts with a character or with an ill-formed part;
  `start_induction` takes it apart from the front.
- **Main results**: `decode_eq_ok_iff` for valid sequences, `replaced_iff` for all of them.
-/

namespace SchemaGraft

namespace Utf8

/-! ## Pieces -/

theorem feed_cons (s : State) (b : UInt8) (rest : Bytes) :
    feed s (b :: rest) =
      ((feed (step s b).1 rest).1, (step s b).2 ++ (feed (step s b).1 rest).2) := rfl

/-- Two pieces in a row are one. -/
theorem feed_append (s : State) (bs cs : Bytes) :
    feed s (bs ++ cs) =
      ((feed (feed s bs).1 cs).1, (feed s bs).2 ++ (feed (feed s bs).1 cs).2) := by
  induction bs generalizing s with
  | nil => rfl
  | cons b bs ih => rw [List.cons_append, feed_cons, ih, feed_cons, List.append_assoc]

/-- The text of a sequence whose rest is still to come. -/
def decodeRest (s : State) (bs : Bytes) : List Char :=
  (feed s bs).2 ++ finish (feed s bs).1

theorem decodeLossy_eq (bs : Bytes) : decodeLossy bs = decodeRest .between bs := rfl

/-- One byte after the other is fed to the machine. -/
theorem decodeRest_cons (s : State) (b : UInt8) (rest : Bytes) :
    decodeRest s (b :: rest) = (step s b).2 ++ decodeRest (step s b).1 rest := by
  rw [decodeRest, feed_cons, List.append_assoc, decodeRest]

/-- The machine may stop between any two bytes. -/
theorem decodeRest_append (s : State) (bs cs : Bytes) :
    decodeRest s (bs ++ cs) = (feed s bs).2 ++ decodeRest (feed s bs).1 cs := by
  rw [decodeRest, feed_append, List.append_assoc, decodeRest]

/-! ## Encoded Characters -/

theorem toUInt8_toNat (b : UInt8) : b.toNat.toUInt8 = b :=
  UInt8.ofNat_toNat

/-- A further byte of a character, by the six bits that it carries. -/
def tailByte (k : ℕ) : UInt8 :=
  (0x80 + k).toUInt8

/-- The number that six bits more make of a number. -/
def shifted (n k : ℕ) : ℕ :=
  n * 64 + k

/-- A byte that is a character on its own encodes this character. -/
theorem encodeChar_one {b : UInt8} {c : Char} (h : openWith b = .whole c) : encodeChar c = [b] := by
  revert h
  fun_cases openWith b <;> intro h <;> cases h
  next hb =>
  have hnat : b.toNat < 0x80 := UInt8.lt_iff_toNat_lt.mp hb
  have hvalid : b.toNat.isValidChar := .inl (by omega)
  rw [encodeChar, Char.toNat_ofNat, if_pos hvalid, if_pos hnat, toUInt8_toNat]

/-- Every character takes a byte. -/
theorem encodeChar_ne_nil (c : Char) : encodeChar c ≠ [] := by
  rw [encodeChar]
  split_ifs <;> exact List.cons_ne_nil _ _

/-- The bytes of a character of eleven bits. -/
theorem encodeChar_two {k i : ℕ} (hlo : 2 ≤ k) (hhi : k < 32) (hi : i < 64) :
    encodeChar (Char.ofNat (shifted k i)) = [(0xC0 + k).toUInt8, tailByte i] := by
  have hvalid : (shifted k i).isValidChar := by
    rw [shifted]
    exact .inl (by omega)
  rw [encodeChar, Char.toNat_ofNat, if_pos hvalid, shifted]
  rw [if_neg (by omega), if_pos (by omega), tailByte, show (k * 64 + i) / 64 = k by omega,
    show (k * 64 + i) % 64 = i by omega]

/-- The bytes of a character of sixteen bits, which is no surrogate. -/
theorem encodeChar_three {k j i : ℕ} (hk : k < 16) (hj : j < 64) (hi : i < 64)
    (hshort : k = 0 → 32 ≤ j) (hsurrogate : k = 13 → j < 32) :
    encodeChar (Char.ofNat (shifted (shifted k j) i)) =
      [(0xE0 + k).toUInt8, tailByte j, tailByte i] := by
  have hvalid : (shifted (shifted k j) i).isValidChar := by
    rw [shifted, shifted, Nat.isValidChar]
    omega
  rw [encodeChar, Char.toNat_ofNat, if_pos hvalid, shifted, shifted]
  rw [if_neg (by omega), if_neg (by omega), if_pos (by omega), tailByte, tailByte,
    show ((k * 64 + j) * 64 + i) / 4096 = k by omega,
    show ((k * 64 + j) * 64 + i) / 64 % 64 = j by omega,
    show ((k * 64 + j) * 64 + i) % 64 = i by omega]

/-- The bytes of a character beyond these. -/
theorem encodeChar_four {k l j i : ℕ} (hk : k < 5) (hl : l < 64) (hj : j < 64) (hi : i < 64)
    (hshort : k = 0 → 16 ≤ l) (hlarge : k = 4 → l < 16) :
    encodeChar (Char.ofNat (shifted (shifted (shifted k l) j) i)) =
      [(0xF0 + k).toUInt8, tailByte l, tailByte j, tailByte i] := by
  have hvalid : (shifted (shifted (shifted k l) j) i).isValidChar := by
    rw [shifted, shifted, shifted, Nat.isValidChar]
    omega
  -- the four bytes hold the bits of the character in groups of 3, 6, 6 and 6
  rw [encodeChar, Char.toNat_ofNat, if_pos hvalid, shifted, shifted, shifted]
  rw [if_neg (by omega), if_neg (by omega), if_neg (by omega), tailByte, tailByte, tailByte,
    show (((k * 64 + l) * 64 + j) * 64 + i) / 262144 = k by omega,
    show (((k * 64 + l) * 64 + j) * 64 + i) / 4096 % 64 = l by omega,
    show (((k * 64 + l) * 64 + j) * 64 + i) / 64 % 64 = j by omega,
    show (((k * 64 + l) * 64 + j) * 64 + i) % 64 = i by omega]

/-! ## Open Characters -/

/-- A character is open after the bytes that were read of it. -/
structure Partial.Opened (p : Partial) : Prop where
  /-- At least its first byte has been read. -/
  read_ne_nil : p.read ≠ []
  /-- What comes next carries six bits. -/
  range : 0x80 ≤ p.low.toNat ∧ p.high.toNat ≤ 0xBF
  /-- The strict decoder has come here by reading them. -/
  decodes : ∀ position rest, decodeFrom position none (p.read ++ rest) =
    decodeFrom (position + p.read.length) (some p) rest
  /-- So has the lossy decoder, and has said nothing yet. -/
  feeds : ∀ rest, feed .between (p.read ++ rest) = feed (.inside p) rest
  /-- With any bytes that may still come, they encode the character of the bits of all of them. -/
  completes : ∀ k ks, ks.length = p.missing → (∀ i ∈ k :: ks, i < 64) →
    p.low.toNat ≤ 0x80 + k → 0x80 + k ≤ p.high.toNat →
    p.read ++ (k :: ks).map tailByte = encodeChar (Char.ofNat ((k :: ks).foldl shifted p.bits))

/-- The bytes that open a character, by the number of bytes that it has. -/
theorem exists_of_openWith {b : UInt8} {p : Partial} (h : openWith b = .opens p) :
    (∃ k, 2 ≤ k ∧ k < 32 ∧ b = (0xC0 + k).toUInt8) ∨ (∃ k < 16, b = (0xE0 + k).toUInt8) ∨
      ∃ k < 5, b = (0xF0 + k).toUInt8 := by
  have hrange : 0xC2 ≤ b.toNat ∧ b.toNat < 0xF5 := by
    revert h
    fun_cases openWith b <;> intro h
    all_goals try cases h
    all_goals
      simp only [UInt8.lt_iff_toNat_lt, ← UInt8.toNat_inj, UInt8.reduceToNat] at *
      omega
  have hb (n : ℕ) (hn : n ≤ b.toNat) : b = (n + (b.toNat - n)).toUInt8 := by
    rw [Nat.add_sub_cancel' hn, toUInt8_toNat]
  -- the range of the byte tells how many follow it
  rcases Nat.lt_or_ge b.toNat 0xE0 with h₂ | h₂
  · exact .inl ⟨b.toNat - 0xC0, by omega, by omega, hb _ (by omega)⟩
  · rcases Nat.lt_or_ge b.toNat 0xF0 with h₃ | h₃
    · exact .inr (.inl ⟨b.toNat - 0xE0, by omega, hb _ h₂⟩)
    · exact .inr (.inr ⟨b.toNat - 0xF0, by omega, hb _ h₃⟩)

/-- What may come after the first byte of a character completes its encoding. -/
theorem completes_of_openWith {b : UInt8} {p : Partial} (h : openWith b = .opens p) {k : ℕ}
    {ks : List ℕ} (hlength : ks.length = p.missing) (hbits : ∀ i ∈ k :: ks, i < 64)
    (hlo : p.low.toNat ≤ 0x80 + k) (hhi : 0x80 + k ≤ p.high.toNat) :
    b :: (k :: ks).map tailByte = encodeChar (Char.ofNat ((k :: ks).foldl shifted p.bits)) := by
  have hk : k < 64 := hbits k (List.mem_cons_self ..)
  rcases exists_of_openWith h with ⟨n, hn, hn', rfl⟩ | ⟨n, hn, rfl⟩ | ⟨n, hn, rfl⟩
  · rw [openWith_two hn hn'] at h
    cases h
    cases List.length_eq_zero_iff.mp hlength
    exact (encodeChar_two hn hn' hk).symm
  · rw [openWith_three hn] at h
    cases h
    obtain ⟨i, rfl⟩ := List.length_eq_one_iff.mp hlength
    -- the range of the second byte rules out overlong forms and surrogates
    refine (encodeChar_three hn hk (hbits i (by simp)) (fun hzero => ?_) fun hed => ?_).symm
    · simp only [hzero, if_pos, UInt8.reduceToNat] at hlo
      omega
    · simp only [hed, if_pos, UInt8.reduceToNat] at hhi
      omega
  · rw [openWith_four hn] at h
    cases h
    obtain ⟨j, i, rfl⟩ := List.length_eq_two.mp hlength
    -- here it rules out overlong forms and numbers that are too large
    refine (encodeChar_four hn hk (hbits j (by simp)) (hbits i (by simp)) (fun hzero => ?_)
      fun hlast => ?_).symm
    · simp only [hzero, if_pos, UInt8.reduceToNat] at hlo
      omega
    · simp only [hlast, if_pos, UInt8.reduceToNat] at hhi
      omega

/-- A byte that opens a character is the first of those that were read. -/
theorem read_of_openWith {b : UInt8} {p : Partial} (h : openWith b = .opens p) : p.read = [b] := by
  revert h
  fun_cases openWith b <;> intro h <;> cases h <;> rfl

/-- The range of the byte that comes after the first one. -/
theorem range_of_openWith {b : UInt8} {p : Partial} (h : openWith b = .opens p) :
    0x80 ≤ p.low.toNat ∧ p.high.toNat ≤ 0xBF := by
  revert h
  fun_cases openWith b <;> intro h <;> cases h <;> simp

/-- The first byte of a character opens it. -/
theorem opened_of_openWith {b : UInt8} {p : Partial} (h : openWith b = .opens p) : p.Opened := by
  have hread := read_of_openWith h
  -- a byte that opens a character is itself all that has been read of it
  have hdecodes (position : ℕ) (rest : Bytes) : decodeFrom position none (b :: rest) =
      decodeFrom (position + 1) (some p) rest := by
    rw [decodeFrom, h]
  have hfeeds (rest : Bytes) : feed .between (b :: rest) = feed (.inside p) rest := by
    have hstart : step .between b = (.inside p, []) := by rw [step, start, h]
    rw [feed_cons, hstart, List.nil_append]
  constructor
  · rw [hread]
    exact List.cons_ne_nil b []
  · exact range_of_openWith h
  · rw [hread]
    exact hdecodes
  · rw [hread]
    exact hfeeds
  · intro k ks hlength hbits hlo hhi
    rw [hread]
    exact completes_of_openWith h hlength hbits hlo hhi

/-- A byte that continues a character is one more. -/
theorem Partial.read_of_more {p q : Partial} {b : UInt8} (h : p.next b = .more q) :
    q.read = p.read ++ [b] := by
  rw [Partial.next] at h
  split at h
  · cases hmissing : p.missing <;> rw [hmissing] at h <;> cases h
    rfl
  · cases h

namespace Partial.Opened

variable {p q : Partial} {b : UInt8}

/-- From an open character onwards, the lossy decoder goes on inside it. -/
theorem decodeLossy_eq (h : p.Opened) (rest : Bytes) :
    decodeLossy (p.read ++ rest) = decodeRest (.inside p) rest := by
  rw [Utf8.decodeLossy_eq, decodeRest, h.feeds, decodeRest]

/-- A byte that continues an open character carries six bits, within the range for it. -/
theorem next_cases (h : p.Opened) (b : UInt8) :
    p.next b = .broken ∨ ∃ k < 64, p.low.toNat ≤ 0x80 + k ∧ 0x80 + k ≤ p.high.toNat ∧
      b = tailByte k ∧ p.next b =
        match p.missing with
        | 0 => .done (Char.ofNat (shifted p.bits k))
        | n + 1 => .more ⟨p.read ++ [b], shifted p.bits k, n, 0x80, 0xBF⟩ := by
  -- which bytes may come next depends on what was read
  by_cases hb : p.low ≤ b ∧ b ≤ p.high
  · have ⟨hlo, hhi⟩ := hb
    rw [UInt8.le_iff_toNat_le] at hlo hhi
    obtain ⟨hlow, hhigh⟩ := h.range
    have hk : 0x80 + (b.toNat - 0x80) = b.toNat := by omega
    have hbyte : b = tailByte (b.toNat - 0x80) := by rw [tailByte, hk, toUInt8_toNat]
    refine .inr ⟨b.toNat - 0x80, by omega, by omega, by omega, hbyte, ?_⟩
    have hnext := next_toUInt8 (p := p) (k := b.toNat - 0x80) (by omega) (by omega) (by omega)
    rwa [← tailByte, ← hbyte] at hnext
  · exact .inl (by rw [Partial.next, if_neg hb])

/-- A further byte leaves the character open. -/
theorem more (h : p.Opened) (hnext : p.next b = .more q) : q.Opened := by
  rcases h.next_cases b with hbroken | ⟨k, hk, hlo, hhi, hb, hcase⟩
  · rw [hbroken] at hnext
    cases hnext
  cases hmissing : p.missing with
  | zero =>
    rw [hmissing, hnext] at hcase
    cases hcase
  | succ n =>
    rw [hmissing] at hcase
    have hq := hnext.symm.trans hcase
    rw [Continuation.more.injEq] at hq
    -- the machine reads the bytes before, and then this one
    have hread (rest : Bytes) : q.read ++ rest = p.read ++ b :: rest := by
      rw [read_of_more hnext, List.append_assoc]
      rfl
    constructor
    · rw [read_of_more hnext]
      exact List.append_ne_nil_of_right_ne_nil _ (List.cons_ne_nil b [])
    · rw [hq]
      simp
    · intro position rest
      rw [hread, h.decodes, decodeFrom, hnext, read_of_more hnext, List.length_append,
        List.length_singleton, Nat.add_assoc]
    · intro rest
      have hstep : step (.inside p) b = (.inside q, []) := by rw [step, hnext]
      rw [hread, h.feeds, feed_cons, hstep, List.nil_append]
    · -- this byte is one of those that may come after the bytes before
      intro i is hlength hbits _ _
      rw [hq] at hlength ⊢
      have hcompletes := h.completes k (i :: is) (by rw [hmissing, List.length_cons, hlength])
        (List.forall_mem_cons.mpr ⟨hk, hbits⟩) hlo hhi
      rw [List.foldl_cons, List.map_cons, ← hb] at hcompletes
      rw [List.append_assoc]
      exact hcompletes

/-- The last byte of a character completes its encoding. -/
theorem done (h : p.Opened) {c : Char} (hnext : p.next b = .done c) :
    p.read ++ [b] = encodeChar c := by
  rcases h.next_cases b with hbroken | ⟨k, hk, hlo, hhi, hb, hcase⟩
  · rw [hbroken] at hnext
    cases hnext
  -- a character is done with its last byte
  cases hmissing : p.missing with
  | zero =>
    rw [hmissing] at hcase
    have hc := hnext.symm.trans hcase
    rw [Continuation.done.injEq] at hc
    have hcompletes := h.completes k [] (by rw [hmissing, List.length_nil])
      (List.forall_mem_singleton.mpr hk) hlo hhi
    rw [hc, hb]
    exact hcompletes
  | succ n =>
    rw [hmissing, hnext] at hcase
    cases hcase

end Partial.Opened

/-! ## First Parts -/

/-- How a byte sequence starts: with a character, or with an ill-formed part, which the strict decoder
reports and in whose place the lossy one puts `U+FFFD`. -/
inductive Start (bs : Bytes) : Prop
  | character (c : Char) (rest : Bytes) (bytes : bs = encodeChar c ++ rest)
      (text : decodeLossy bs = c :: decodeLossy rest)
  | illFormed (part rest : Bytes) (cause : DecodeCause) (some : part ≠ []) (bytes : bs = part ++ rest)
      (reported : decode bs = .error ⟨0, part, cause⟩)
      (text : decodeLossy bs = replacement :: decodeLossy rest)

/-- What the bytes after the first two of a surrogate make known. -/
theorem decodeRest_surrogate (rest : Bytes) :
    decodeRest .surrogate rest = replacement :: replacement :: decodeLossy rest := by
  cases rest with
  | nil => rfl
  | cons b rest =>
    rw [decodeRest_cons, decodeLossy_eq, decodeRest_cons]
    rfl

/-- A byte that the machine has to be outside any character for opens none. -/
theorem openWith_of_opensSurrogate {p : Partial} {b : UInt8} (h : p.opensSurrogate b = true) :
    openWith b = .illegal := by
  simp only [Partial.opensSurrogate, Bool.and_eq_true, decide_eq_true_eq, UInt8.le_iff_toNat_le] at h
  obtain ⟨⟨-, hlo⟩, hhi⟩ := h
  rw [openWith, if_neg (by rw [UInt8.lt_iff_toNat_lt]; simp at hlo ⊢; omega),
    if_pos (by rw [UInt8.lt_iff_toNat_lt]; simp at hhi ⊢; omega)]

/-- A byte that cannot continue an open character ends an ill-formed part. -/
theorem decodeRest_broken {p : Partial} {b : UInt8} (hnext : p.next b = .broken) (rest : Bytes) :
    decodeRest (.inside p) (b :: rest) = replacement :: decodeLossy (b :: rest) := by
  have hbetween : decodeLossy (b :: rest) = (start b).2 ++ decodeRest (start b).1 rest :=
    decodeRest_cons .between b rest
  rw [decodeRest_cons, hbetween, step, hnext]
  dsimp only
  split
  · -- the second byte of a surrogate is held back, and is no character
    next h =>
    have hstart : start b = (.between, [replacement]) := by rw [start, openWith_of_opensSurrogate h]
    rw [decodeRest_surrogate, hstart]
    rfl
  · rfl

/-- What starts with an open character starts with a character or with an ill-formed part. -/
theorem Partial.Opened.start {p : Partial} (h : p.Opened) (rest : Bytes) : Start (p.read ++ rest) := by
  induction rest generalizing p with
  | nil =>
    refine .illFormed p.read [] .unexpectedEnd h.read_ne_nil rfl ?_ ?_
    · rw [decode, h.decodes, decodeFrom, Nat.zero_add, Nat.sub_self]
    · rw [h.decodeLossy_eq]
      rfl
  | cons b rest ih =>
    have hread : p.read ++ b :: rest = p.read ++ [b] ++ rest := by rw [List.append_assoc]; rfl
    -- the byte completes the character, continues it, or makes it ill-formed
    cases hnext : p.next b with
    | done c =>
      refine .character c rest (by rw [hread, h.done hnext]) ?_
      rw [h.decodeLossy_eq, decodeRest_cons, step, hnext]
      rfl
    | more q =>
      rw [hread, ← read_of_more hnext]
      exact ih (h.more hnext)
    | broken =>
      refine .illFormed p.read (b :: rest) .invalidContinuation h.read_ne_nil rfl ?_ ?_
      · rw [decode, h.decodes, decodeFrom, hnext, Nat.zero_add, Nat.sub_self]
      · rw [h.decodeLossy_eq, decodeRest_broken hnext]

/-- **Every byte sequence that is not empty starts** with a character or with an ill-formed part. -/
theorem start_cons (b : UInt8) (rest : Bytes) : Start (b :: rest) := by
  -- by the first byte: a character of its own, the first of several, or none
  cases hopen : openWith b with
  | whole c =>
    refine .character c rest (by rw [encodeChar_one hopen]; rfl) ?_
    rw [decodeLossy_eq, decodeRest_cons, step, start, hopen]
    rfl
  | opens p =>
    have hopened := opened_of_openWith hopen
    have hread : p.read = [b] := read_of_openWith hopen
    have hstart := hopened.start rest
    rwa [hread] at hstart
  | illegal =>
    refine .illFormed [b] rest .invalidStart (List.cons_ne_nil b []) rfl ?_ ?_
    · rw [decode, decodeFrom, hopen]
    · rw [decodeLossy_eq, decodeRest_cons, step, start, hopen]
      rfl

/-- Byte sequences are built from characters and ill-formed parts. -/
theorem start_induction {motive : Bytes → Prop} (nil : motive [])
    (character : ∀ c rest, decodeLossy (encodeChar c ++ rest) = c :: decodeLossy rest →
      motive rest → motive (encodeChar c ++ rest))
    (illFormed : ∀ part rest cause, decode (part ++ rest) = .error ⟨0, part, cause⟩ →
      decodeLossy (part ++ rest) = replacement :: decodeLossy rest → motive rest →
      motive (part ++ rest)) (bs : Bytes) : motive bs := by
  have hshorter {n : ℕ} {part rest : Bytes} (hpart : part ≠ [])
      (h : (part ++ rest).length ≤ n + 1) : rest.length ≤ n := by
    have := List.length_pos_iff.mpr hpart
    rw [List.length_append] at h
    omega
  -- by induction on a bound for the length: each piece takes a byte at least
  have hall (n : ℕ) : ∀ bs : Bytes, bs.length ≤ n → motive bs := by
    induction n with
    | zero =>
      intro bs h
      rwa [List.length_eq_zero_iff.mp (Nat.le_zero.mp h)]
    | succ n ih =>
      intro bs h
      cases bs with
      | nil => exact nil
      | cons b bs =>
        cases start_cons b bs with
        | character c rest bytes text =>
          rw [bytes] at h text ⊢
          exact character c rest text (ih rest (hshorter (encodeChar_ne_nil c) h))
        | illFormed part rest cause some bytes reported text =>
          rw [bytes] at h reported text ⊢
          exact illFormed part rest cause reported text (ih rest (hshorter some h))
  exact hall bs.length bs (Nat.le_refl _)

/-! ## Valid Sequences -/

/-- Further behind, the decoder reports the same part at a place further behind. -/
theorem decodeFrom_add (position n : ℕ) (s : Option Partial) (bs : Bytes)
    (hs : ∀ p, s = some p → p.read.length ≤ position) :
    decodeFrom (position + n) s bs =
      (decodeFrom position s bs).mapError fun f => { f with position := f.position + n } := by
  have hmap (c : Char) (x : Except DecodeFault (List Char)) :
      (x.mapError fun f => { f with position := f.position + n }).map (c :: ·) =
        (x.map (c :: ·)).mapError fun f => { f with position := f.position + n } := by
    cases x <;> rfl
  have hnone (position : ℕ) : ∀ p, (none : Option Partial) = some p → p.read.length ≤ position :=
    fun p hp => by cases hp
  -- what was read of a character counts back from the position, and must not reach behind its start
  induction bs generalizing position s with
  | nil =>
    cases s with
    | none => rfl
    | some p =>
      rw [decodeFrom, decodeFrom, Nat.sub_add_comm (hs p rfl)]
      rfl
  | cons b rest ih =>
    cases s with
    | none =>
      rw [decodeFrom, decodeFrom, Nat.add_right_comm]
      cases hopen : openWith b with
      | whole c =>
        dsimp only
        rw [ih (position + 1) none (hnone _), hmap]
      | opens p =>
        refine ih (position + 1) (some p) fun q hq => ?_
        cases hq
        rw [read_of_openWith hopen, List.length_singleton]
        omega
      | illegal => rfl
    | some p =>
      rw [decodeFrom, decodeFrom, Nat.add_right_comm]
      cases hnext : p.next b with
      | done c =>
        dsimp only
        rw [ih (position + 1) none (hnone _), hmap]
      | more q =>
        refine ih (position + 1) (some q) fun q' hq => ?_
        cases hq
        have hlength := hs p rfl
        rw [Partial.read_of_more hnext, List.length_append, List.length_singleton]
        omega
      | broken =>
        dsimp only
        rw [Nat.sub_add_comm (hs p rfl)]
        rfl

/-- A character in front moves what the strict decoder reports. -/
theorem decode_encodeChar_append (c : Char) (rest : Bytes) :
    decode (encodeChar c ++ rest) =
      ((decode rest).mapError fun f =>
        { f with position := f.position + (encodeChar c).length }).map (c :: ·) := by
  rw [decode, decodeFrom_encodeChar, decodeFrom_add 0 _ none rest (fun p hp => by cases hp), ← decode]

/-- **The strict decoder accepts exactly the encodings of characters.** -/
theorem decode_eq_ok_iff {bs : Bytes} {cs : List Char} : decode bs = .ok cs ↔ bs = encodeChars cs := by
  constructor
  · intro h
    induction bs using start_induction generalizing cs with
    | nil =>
      cases h
      rfl
    | character c rest _ ih =>
      rw [decode_encodeChar_append] at h
      cases hrest : decode rest with
      | error f =>
        rw [hrest] at h
        cases h
      | ok cs' =>
        rw [hrest] at h
        cases h
        rw [ih hrest, encodeChars, encodeChars, List.flatMap_cons]
    -- an ill-formed part would have been reported
    | illFormed part rest cause reported _ _ =>
      rw [reported] at h
      cases h
  · rintro rfl
    exact decode_encodeChars cs

/-! ## Ill-Formed Parts -/

/-- A byte sequence is decoded to a text when every ill-formed part that the strict decoder reports, one
after the other, becomes one `U+FFFD`. -/
inductive Replaced : Bytes → List Char → Prop
  /-- There is nothing to replace. -/
  | valid {bs : Bytes} {cs : List Char} (decoded : decode bs = .ok cs) : Replaced bs cs
  /-- The characters in front of the part are kept, and decoding goes on behind it. -/
  | part {front back : Bytes} {cs out : List Char} {f : DecodeFault}
      (reported : decode (front ++ f.bytes ++ back) = .error f) (position : f.position = front.length)
      (decoded : decode front = .ok cs) (rest : Replaced back out) :
    Replaced (front ++ f.bytes ++ back) (cs ++ replacement :: out)

/-- A character in front changes nothing behind it. -/
theorem Replaced.character {bs : Bytes} {cs : List Char} (h : Replaced bs cs) (c : Char) :
    Replaced (encodeChar c ++ bs) (c :: cs) := by
  cases h with
  | valid decoded =>
    refine .valid ?_
    rw [decode_encodeChar_append, decoded]
    rfl
  | @part front back cs out f reported position decoded rest =>
    rw [← List.append_assoc, ← List.append_assoc, ← List.cons_append]
    refine .part (f := { f with position := f.position + (encodeChar c).length }) ?_ ?_ ?_ rest
    · rw [List.append_assoc, List.append_assoc, ← List.append_assoc front, decode_encodeChar_append,
        reported]
      rfl
    · rw [List.length_append, position, Nat.add_comm]
    · rw [decode_encodeChar_append, decoded]
      rfl

/-- **The lossy decoder replaces what the strict one reports.** -/
theorem replaced_decodeLossy (bs : Bytes) : Replaced bs (decodeLossy bs) := by
  induction bs using start_induction with
  | nil => exact .valid rfl
  | character c rest text ih =>
    rw [text]
    exact ih.character c
  | illFormed part rest cause reported text ih =>
    rw [text]
    exact @Replaced.part [] rest [] _ ⟨0, part, cause⟩ reported rfl rfl ih

/-- The bytes determine the text. -/
theorem Replaced.unique {bs : Bytes} {cs cs' : List Char} (h : Replaced bs cs)
    (h' : Replaced bs cs') : cs = cs' := by
  induction h generalizing cs' with
  | valid decoded =>
    cases h' with
    | valid decoded' => exact Except.ok.inj (decoded.symm.trans decoded')
    | part reported => cases decoded.symm.trans reported
  | @part front back cs out f reported position decoded rest ih =>
    generalize hbs : front ++ f.bytes ++ back = bs at reported h'
    cases h' with
    | valid decoded' => cases decoded'.symm.trans reported
    | @part front' back' cs₂ out' f' reported' position' decoded' rest' =>
      -- both derivations start with the part that is reported
      cases reported.symm.trans reported'
      rw [List.append_assoc, List.append_assoc] at hbs
      obtain ⟨rfl, hback⟩ := List.append_inj hbs (position.symm.trans position')
      obtain rfl := List.append_cancel_left hback
      cases decoded.symm.trans decoded'
      rw [ih rest']

/-- The pieces of the specification are what the lossy decoder gives. -/
theorem replaced_iff {bs : Bytes} {cs : List Char} : Replaced bs cs ↔ cs = decodeLossy bs :=
  ⟨fun h => h.unique (replaced_decodeLossy bs), fun h => h ▸ replaced_decodeLossy bs⟩

end Utf8

end SchemaGraft
