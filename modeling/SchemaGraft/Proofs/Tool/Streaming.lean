import SchemaGraft.Proofs.Text.Decoding
import SchemaGraft.Tool.Stream

/-!
# Output as It Arrives

A tool writes to two pipes, which are read by turns, in any order and in chunks of any size.  What is
passed on of one pipe does not depend on the other, and together it is the decoded text of all that was
written.

## Architecture

- **One pump**: `ToolStream.pumpChunks` for chunks of any size; `ToolStream.pump` is the case of portions
  that are cut into pieces (`pump_eq`).
- **Two pumps**: `ToolStream.relay` runs both by the reads in the order in which they happen;
  `ofStream_relay` takes it apart into one pump for each pipe.
- **Text**: `ToolStream.Decoded` is what the texts of a pipe are to be; `decoded_pumpChunks`.
- **Main result**: `ToolStream.relay_decodes`.
-/

namespace SchemaGraft

namespace ToolStream

open Utf8 (decodeLossy decodeRest)

/-! ## One Pump -/

/-- What becomes known is handed over unless it is empty. -/
def handOver (out : List Char) : List Text :=
  if out.isEmpty then [] else [Text.ofChars out]

theorem flatten_handOver (out : List Char) : (handOver out).flatten = Text.ofChars out := by
  cases out with
  | nil => rfl
  | cons c out => exact List.append_nil _

theorem nil_not_mem_handOver (out : List Char) : [] ∉ handOver out := by
  cases out with
  | nil => exact List.not_mem_nil
  | cons c out => exact fun h => List.cons_ne_nil _ _ (List.mem_singleton.mp h).symm

/-- The texts that a pump hands over when it reads these chunks and then the end of its pipe. -/
def pumpFrom (s : Utf8.State) (chunks : List Bytes) : List Text :=
  (texts s chunks).flatMap handOver

def pumpChunks (chunks : List Bytes) : List Text :=
  pumpFrom .between chunks

theorem pump_eq (portions : List Bytes) : pump portions = pumpChunks (portions.flatMap pieces) := by
  rw [pump, pumpChunks, pumpFrom]
  induction texts .between (portions.flatMap pieces) with
  | nil => rfl
  | cons out outs ih =>
    rw [List.flatMap_cons, ← ih]
    cases out with
    | nil => rfl
    | cons c out => rfl

/-- The pieces of a portion are all of it. -/
theorem flatten_pieces (portion : Bytes) : (pieces portion).flatten = portion := by
  fun_induction pieces portion with
  | case1 => rfl
  | case2 b rest ih => rw [List.flatten_cons, ih, List.cons_append, List.take_append_drop]

/-- Pieces of portions join up to the portions. -/
theorem flatten_flatMap_pieces (portions : List Bytes) :
    (portions.flatMap pieces).flatten = portions.flatten := by
  induction portions with
  | nil => rfl
  | cons portion rest ih =>
    rw [List.flatMap_cons, List.flatten_append, flatten_pieces, ih, List.flatten_cons]

/-- The texts that become known chunk by chunk are the text of all the chunks. -/
theorem flatten_texts (s : Utf8.State) (chunks : List Bytes) :
    (texts s chunks).flatten = decodeRest s chunks.flatten := by
  induction chunks generalizing s with
  | nil => exact List.append_nil _
  | cons chunk rest ih =>
    rw [texts, List.flatten_cons, ih, List.flatten_cons, Utf8.decodeRest_append]

/-- Texts that are empty make no difference to the whole. -/
theorem flatten_flatMap_handOver (outs : List (List Char)) :
    (outs.flatMap handOver).flatten = Text.ofChars outs.flatten := by
  induction outs with
  | nil => rfl
  | cons out outs ih =>
    rw [List.flatMap_cons, List.flatten_append, flatten_handOver, ih, List.flatten_cons, Text.ofChars,
      Text.ofChars, Text.ofChars, List.map_append]

/-- All that is handed over together is the decoded text. -/
theorem flatten_pumpChunks (chunks : List Bytes) :
    (pumpChunks chunks).flatten = Text.ofChars (decodeLossy chunks.flatten) := by
  rw [pumpChunks, pumpFrom, flatten_flatMap_handOver, flatten_texts, Utf8.decodeLossy_eq]

/-- No empty text is handed over. -/
theorem nil_not_mem_pumpChunks (chunks : List Bytes) : [] ∉ pumpChunks chunks := by
  intro h
  obtain ⟨out, -, hout⟩ := List.mem_flatMap.mp h
  exact nil_not_mem_handOver out hout

/-! ## Two Pumps -/

/-- What a pump does with what it reads.  It holds the state of its decoder until it reads nothing, which
is the end of its pipe; then what is left becomes known, and it reads no more. -/
def afterRead (chunk : Bytes) : Option Utf8.State → Option Utf8.State × List Char
  | none => (none, [])
  | some s =>
    if chunk.isEmpty then
      (none, Utf8.finish s)
    else
      let (s, out) := Utf8.feed s chunk
      (some s, out)

/-- The texts that one pump hands over for what it reads. -/
def pumpReads (p : Option Utf8.State) : List Bytes → List Text
  | [] => []
  | chunk :: reads =>
    let (p, out) := afterRead chunk p
    handOver out ++ pumpReads p reads

/-- Runs the pumps of both pipes by the reads in the order in which they happen, each with its pipe, and
gives the texts in the order in which they are handed over, each with its pipe. -/
def relay (pumps : ToolStream → Option Utf8.State) :
    List (ToolStream × Bytes) → List (ToolStream × Text)
  | [] => []
  | (stream, chunk) :: reads =>
    let (p, out) := afterRead chunk (pumps stream)
    (handOver out).map (stream, ·) ++ relay (Function.update pumps stream p) reads

/-- What belongs to a pipe. -/
def ofStream {α : Type} (stream : ToolStream) (items : List (ToolStream × α)) : List α :=
  (items.filter (·.1 = stream)).map (·.2)

section

variable {α : Type} {stream stream' : ToolStream}

theorem ofStream_append (items items' : List (ToolStream × α)) :
    ofStream stream (items ++ items') = ofStream stream items ++ ofStream stream items' := by
  rw [ofStream, List.filter_append, List.map_append, ofStream, ofStream]

theorem ofStream_cons (x : α) (items : List (ToolStream × α)) :
    ofStream stream ((stream', x) :: items) =
      if stream' = stream then x :: ofStream stream items else ofStream stream items := by
  by_cases h : stream' = stream <;> simp [ofStream, h]

theorem ofStream_map (xs : List α) :
    ofStream stream (xs.map (stream', ·)) = if stream' = stream then xs else [] := by
  induction xs with
  | nil => simp [ofStream]
  | cons x xs ih =>
    rw [List.map_cons, ofStream_cons, ih]
    split <;> rfl

end

/-- **What is handed over for a pipe** is what its own pump hands over for its own reads. -/
theorem ofStream_relay (stream : ToolStream) (pumps : ToolStream → Option Utf8.State)
    (reads : List (ToolStream × Bytes)) :
    ofStream stream (relay pumps reads) = pumpReads (pumps stream) (ofStream stream reads) := by
  induction reads generalizing pumps with
  | nil => rfl
  | cons read reads ih =>
    obtain ⟨stream', chunk⟩ := read
    rw [relay, ofStream_append, ofStream_map, ih, ofStream_cons]
    by_cases h : stream' = stream
    · subst h
      rw [if_pos rfl, if_pos rfl, Function.update_self, pumpReads]
    · -- a read of the other pipe changes the other pump
      rw [if_neg h, if_neg h, Function.update_of_ne (Ne.symm h), List.nil_append]

/-- A pump that reads chunks and then the end of its pipe hands over what becomes known. -/
theorem pumpReads_append_end (s : Utf8.State) {chunks : List Bytes} (h : [] ∉ chunks) :
    pumpReads (some s) (chunks ++ [[]]) = pumpFrom s chunks := by
  induction chunks generalizing s with
  | nil => rfl
  | cons chunk chunks ih =>
    obtain ⟨hchunk, hchunks⟩ := List.ne_and_not_mem_of_not_mem_cons h
    have hread : afterRead chunk (some s) = (some (Utf8.feed s chunk).1, (Utf8.feed s chunk).2) := by
      rw [afterRead, if_neg fun hempty => hchunk (List.isEmpty_iff.mp hempty).symm]
    rw [List.cons_append, pumpReads, hread]
    dsimp only
    rw [ih _ hchunks, pumpFrom, pumpFrom, texts, List.flatMap_cons]

/-- The reads of both pipes bring the chunks of each pipe in their order, and then its end. -/
structure Delivers (chunks : ToolStream → List Bytes) (reads : List (ToolStream × Bytes)) : Prop where
  /-- No chunk is empty: a read that brings nothing is the end. -/
  nonempty : ∀ stream, [] ∉ chunks stream
  inOrder : ∀ stream, ofStream stream reads = chunks stream ++ [[]]

/-- What is handed over for a pipe by the pumps of a tool that has started. -/
def handed (stream : ToolStream) (reads : List (ToolStream × Bytes)) : List Text :=
  ofStream stream (relay (fun _ => some .between) reads)

/-- **The pipes are independent**: what is handed over for one of them depends on its own chunks only. -/
theorem handed_eq {chunks : ToolStream → List Bytes} {reads : List (ToolStream × Bytes)}
    (h : Delivers chunks reads) (stream : ToolStream) :
    handed stream reads = pumpChunks (chunks stream) := by
  rw [handed, ofStream_relay, h.inOrder, pumpReads_append_end _ (h.nonempty stream), pumpChunks]

/-! ## Text -/

/-- What the texts of a stream of bytes are to be. -/
structure Decoded (bytes : Bytes) (handed : List Text) : Prop where
  /-- None of them is empty. -/
  nonempty : [] ∉ handed
  /-- Together they are the text of all the bytes, with one `U+FFFD` for each ill-formed part. -/
  replaced : ∃ cs, Utf8.Replaced bytes cs ∧ handed.flatten = Text.ofChars cs
  /-- There is no other such text. -/
  unique : ∀ cs, Utf8.Replaced bytes cs → handed.flatten = Text.ofChars cs
  /-- They encode the bytes if these are valid, and only then. -/
  encodes : Utf8.encode handed.flatten = .ok bytes ↔ ∃ cs, Utf8.decode bytes = .ok cs

/-- Bytes are the encoding of their text when they are valid. -/
theorem encode_decodeLossy_iff (bytes : Bytes) :
    Utf8.encode (Text.ofChars (decodeLossy bytes)) = .ok bytes ↔ ∃ cs, Utf8.decode bytes = .ok cs := by
  rw [Utf8.encode_ok_iff, Text.scalars_ofChars]
  constructor
  · rintro ⟨-, h⟩
    exact ⟨_, Utf8.decode_eq_ok_iff.mpr h⟩
  · rintro ⟨cs, h⟩
    have hcs : cs = decodeLossy bytes := Utf8.replaced_iff.mp (.valid h)
    exact ⟨Text.encodable_ofChars _, hcs ▸ Utf8.decode_eq_ok_iff.mp h⟩

theorem decoded_pumpChunks (chunks : List Bytes) : Decoded chunks.flatten (pumpChunks chunks) where
  nonempty := nil_not_mem_pumpChunks chunks
  replaced := ⟨_, Utf8.replaced_decodeLossy _, flatten_pumpChunks chunks⟩
  unique cs h := by rw [flatten_pumpChunks, Utf8.replaced_iff.mp h]
  encodes := by rw [flatten_pumpChunks, encode_decodeLossy_iff]

/-! ## Main Result -/

/-- **What is passed on does not depend on how it arrives.**  However the bytes of two pipes are divided
into chunks, and in whatever order the chunks of both are read, the texts that are handed over for a pipe
are those of its own chunks alone, and together the decoded text of all its bytes.  A tool that writes
these bytes in any portions has the same text passed on. -/
theorem relay_decodes {chunks : ToolStream → List Bytes} {reads : List (ToolStream × Bytes)}
    (h : Delivers chunks reads) (stream : ToolStream) :
    handed stream reads = pumpChunks (chunks stream) ∧
      Decoded (chunks stream).flatten (handed stream reads) ∧
      ∀ portions : List Bytes, portions.flatten = (chunks stream).flatten →
        Decoded portions.flatten (pump portions) ∧
          (pump portions).flatten = (handed stream reads).flatten := by
  have hhanded := handed_eq h stream
  refine ⟨hhanded, hhanded ▸ decoded_pumpChunks (chunks stream), fun portions hportions => ⟨?_, ?_⟩⟩
  · rw [← flatten_flatMap_pieces portions, pump_eq]
    exact decoded_pumpChunks _
  · rw [pump_eq, hhanded, flatten_pumpChunks, flatten_pumpChunks, flatten_flatMap_pieces, hportions]

/-- A character and a surrogate, each cut in two, from two pipes that are read by turns: the character is
put together again, and each byte of the surrogate is replaced. -/
theorem relay_decodes_interleaved :
    let chunks : ToolStream → List Bytes := fun
      | .output => [[0xC3], [0xA9]]
      | .error => [[0xED, 0xA0], [0x80]]
    let reads : List (ToolStream × Bytes) := [(.output, [0xC3]), (.error, [0xED, 0xA0]),
      (.output, [0xA9]), (.output, []), (.error, [0x80]), (.error, [])]
    Delivers chunks reads ∧ Decoded [0xC3, 0xA9] (handed .output reads) ∧
      handed .output reads = [Text.ofString "\u00e9"] ∧
      Decoded [0xED, 0xA0, 0x80] (handed .error reads) ∧
      handed .error reads = [Text.ofString "\ufffd\ufffd\ufffd"] := by
  intro chunks reads
  have h : Delivers chunks reads :=
    ⟨fun stream => by cases stream <;> decide, fun stream => by cases stream <;> decide⟩
  exact ⟨h, (relay_decodes h .output).2.1, by cbv, (relay_decodes h .error).2.1, by cbv⟩

end ToolStream

end SchemaGraft
