import SchemaGraft.Proofs.Json.Leaves
import SchemaGraft.Proofs.Json.Shape
import SchemaGraft.Proofs.Outcome

/-!
# Reading Canonical Texts Back

The reader gives back what the canonical writer wrote: the value with its members in order.

## Architecture

- **Starts**: `render_head` says how the text of a value starts, so that blanks in front of it end
  there and closing brackets are told from it.
- **Values**: `Json.ReadsBack` is what is proved by induction; `readItems_render` and
  `readMembers_render` carry it through lists and objects.
- **Main result**: `read_canonical`.
- **Files**: a canonical text has no carriage return (`not_mem_canonical`), and it can be encoded
  exactly when the strings of the value can (`encodable_canonical`).
-/

namespace SchemaGraft.Json

/-! ## Blanks -/

/-- What stands behind a value in a canonical text. -/
def Follows (rest : List Char) : Prop :=
  ∀ c ∈ rest.head?, c = ',' ∨ c = '\n'

/-- What stands behind a value also ends a number. -/
theorem Follows.endsNumber {rest : List Char} (h : Follows rest) : EndsNumber rest := by
  intro c hc
  rcases h c hc with rfl | rfl <;> decide

/-- A new line is a line feed and two blanks for each level. -/
theorem scalars_newline (level : ℕ) :
    (newline level).scalars = '\n' :: List.replicate (2 * level) ' ' := by
  rw [newline, Text.scalars_cons, Text.scalars_replicate]

theorem skipBlanks_cons {c : Char} (hc : isBlank c = false) (rest : List Char) :
    skipBlanks (c :: rest) = c :: rest := by
  simp [skipBlanks, hc]

/-- The blanks of a new line end where the next text starts. -/
theorem skipBlanks_newline (level : ℕ) {c : Char} (hc : isBlank c = false) (rest : List Char) :
    skipBlanks ((newline level).scalars ++ c :: rest) = c :: rest := by
  have hblank : ∀ d ∈ (newline level).scalars, isBlank d = true := by
    rw [scalars_newline]
    intro d hd
    rcases List.mem_cons.mp hd with rfl | hd
    · rfl
    · rw [List.eq_of_mem_replicate hd]
      rfl
  rw [skipBlanks, List.dropWhile_append_of_pos hblank]
  exact skipBlanks_cons hc rest

/-- A new line may stand behind a value. -/
theorem follows_newline (level : ℕ) (rest : List Char) :
    Follows ((newline level).scalars ++ rest) := by
  rw [scalars_newline]
  rintro c ⟨⟩
  exact .inr rfl

/-! ## Scalars -/

/-- What is read as a number starts with a digit or a minus sign. -/
theorem head_of_readNumber {cs : List Char} {r : Except Failure (Json × List Char)}
    (h : readNumber cs = some r) :
    ∃ c rest, cs = c :: rest ∧ (Digits.isDecimal c = true ∨ c = '-') := by
  cases cs with
  | nil => simp [readNumber, readWhole, spanDigits] at h
  | cons c rest =>
    refine ⟨c, rest, rfl, ?_⟩
    by_contra hc
    obtain ⟨hdigit, hminus⟩ := not_or.mp hc
    -- a zero is a digit, too, and is read apart from the others
    have hzero : c ≠ '0' := by
      rintro rfl
      exact hdigit rfl
    simp [readNumber, hminus, readWhole, hzero, spanDigits, hdigit] at h

/-- What is read as a number is read as a value. -/
theorem readValue_of_readNumber {cs : List Char} {r : Except Failure (Json × List Char)}
    (h : readNumber cs = some r) (fuel depth : ℕ) : readValue (fuel + 1) depth cs = r := by
  obtain ⟨c, rest, rfl, hc⟩ := head_of_readNumber h
  rw [readValue.eq_def]
  dsimp only
  split
  case h_10 => rw [h]; rfl
  case h_9 =>
    -- a minus sign in front of a letter starts no number
    next heq =>
    have hletter : Digits.isDecimal 'I' = false := rfl
    simp [heq, readNumber, readWhole, spanDigits, hletter] at h
  -- in all other cases the first character would have to be one that starts no number
  all_goals
    rename_i heq
    obtain ⟨rfl, -⟩ := List.cons.inj heq
    simp [Digits.isDecimal] at hc

/-- A finite number is written as its numeral. -/
theorem number_finite {x : Binary64} (hx : x.isFinite = true) :
    number x = Text.ofChars x.numeral := by
  cases x with
  | finite negative m e hfits => rfl
  | _ => simp [Binary64.isFinite] at hx

/-- The text of a value starts with a character that is neither a blank nor a closing bracket. -/
theorem render_head {v : Json} (hmoderate : v.Moderate) (hfinite : v.Finite) (level : ℕ) :
    ∃ c cs, (render level v).scalars = c :: cs ∧ isBlank c = false ∧ c ≠ ']' ∧ c ≠ '\ufeff' := by
  have hnumber {cs : List Char} {r : Except Failure (Json × List Char)}
      (h : readNumber (cs ++ []) = some r) :
      ∃ c rest, cs = c :: rest ∧ isBlank c = false ∧ c ≠ ']' ∧ c ≠ '\ufeff' := by
    obtain ⟨c, rest, hcs, hc⟩ := head_of_readNumber h
    refine ⟨c, rest, by simpa using hcs, ?_⟩
    rcases hc with hc | rfl
    · refine ⟨?_, ?_, ?_⟩
      · rw [← Bool.not_eq_true]
        intro hblank
        simp only [isBlank, Bool.or_eq_true, beq_iff_eq] at hblank
        rcases hblank with ((rfl | rfl) | rfl) | rfl <;> cases hc
      · rintro rfl
        cases hc
      · rintro rfl
        cases hc
    · decide
  have hend : EndsNumber [] := by simp [EndsNumber]
  -- each kind of value starts in its own way, and numbers as they are read
  cases v with
  | null => exact ⟨_, _, rfl, by decide⟩
  | bool b => cases b <;> exact ⟨_, _, rfl, by decide⟩
  | int n =>
    rw [render, Text.ofInt, Text.scalars_ofChars]
    exact hnumber (readNumber_ofInt hmoderate hend)
  | float x =>
    rw [render, number_finite hfinite, Text.scalars_ofChars]
    exact hnumber (readNumber_numeral hfinite hend)
  | text t => exact ⟨_, _, scalars_quote t, by decide⟩
  | list items => cases items <;> exact ⟨_, _, rfl, by decide⟩
  | object ms => rcases ms with _ | ⟨⟨n, v⟩, ms⟩ <;> exact ⟨_, _, rfl, by decide⟩

/-! ## Values -/

/-- The text of the value, in front of anything that may follow it, is read back. -/
def ReadsBack (v : Json) : Prop :=
  ∀ ⦃depth level fuel : ℕ⦄ ⦃rest : List Char⦄, Within depth v → Follows rest →
    2 * ((render level v).scalars ++ rest).length ≤ fuel →
      readValue fuel depth ((render level v).scalars ++ rest) = .ok (v, rest)

/-- Behind an item there is a comma, or the new line in front of the bracket. -/
theorem scalars_renderItems_follows (level : ℕ) (items : List Json) (level' : ℕ)
    (rest : List Char) :
    Follows ((renderItems level items).scalars ++ ((newline level').scalars ++ rest)) := by
  cases items with
  | nil => exact follows_newline level' rest
  | cons v items =>
    rintro c ⟨⟩
    exact .inl rfl

/-- Behind a member there is a comma, or the new line in front of the brace. -/
theorem scalars_renderMembers_follows (level : ℕ) (ms : List (Text × Json)) (level' : ℕ)
    (rest : List Char) :
    Follows ((renderMembers level ms).scalars ++ ((newline level').scalars ++ rest)) := by
  rcases ms with _ | ⟨⟨n, v⟩, ms⟩
  · exact follows_newline level' rest
  · rintro c ⟨⟩
    exact .inl rfl

/-- The items of a list are read back when each of them is. -/
theorem readItems_render {depth level level' fuel : ℕ} {v : Json} {items : List Json}
    {rest : List Char} (hreads : ∀ u ∈ v :: items, u.ReadsBack)
    (hwithin : ∀ u ∈ v :: items, u.Within depth)
    (hheads : ∀ u ∈ items, ∃ c cs, (render level u).scalars = c :: cs ∧ isBlank c = false)
    (hfuel : 2 * ((render level v).scalars ++ ((renderItems level items).scalars ++
      ((newline level').scalars ++ ']' :: rest))).length + 1 ≤ fuel) :
    readItems fuel depth ((render level v).scalars ++ ((renderItems level items).scalars ++
      ((newline level').scalars ++ ']' :: rest))) = .ok (v :: items, rest) := by
  induction items generalizing v fuel with
  | nil =>
    -- the last item: what follows it is a new line and the closing bracket
    obtain ⟨fuel, rfl⟩ : ∃ k, fuel = k + 1 := ⟨fuel - 1, by omega⟩
    rw [readItems, hreads v (by simp) (hwithin v (by simp))
      (scalars_renderItems_follows _ _ _ _) (by omega)]
    simp only [renderItems, Text.scalars_nil, List.nil_append, Except.ok_bind,
      skipBlanks_newline level' (show isBlank ']' = false from rfl)]
    rfl
  | cons u items ih =>
    obtain ⟨fuel, rfl⟩ : ∃ k, fuel = k + 1 := ⟨fuel - 1, by omega⟩
    -- the blanks behind the comma end where the next item starts
    obtain ⟨c, cs, hc, hblank⟩ := hheads u (by simp)
    have htext : (renderItems level (u :: items)).scalars =
        ',' :: ((newline level).scalars ++ ((render level u).scalars ++
          (renderItems level items).scalars)) := by
      simp [renderItems]
    rw [readItems, hreads v (by simp) (hwithin v (by simp))
      (scalars_renderItems_follows _ _ _ _) (by omega)]
    have ih := @ih fuel u (fun w hw => hreads w (List.mem_cons_of_mem v hw))
      (fun w hw => hwithin w (List.mem_cons_of_mem v hw))
      (fun w hw => hheads w (List.mem_cons_of_mem u hw)) (by
        rw [htext] at hfuel
        simp only [List.length_append, List.length_cons] at hfuel ⊢
        omega)
    have hskip : skipBlanks ((newline level).scalars ++ ((render level u).scalars ++
        ((renderItems level items).scalars ++ ((newline level').scalars ++ ']' :: rest)))) =
          (render level u).scalars ++ ((renderItems level items).scalars ++
            ((newline level').scalars ++ ']' :: rest)) := by
      rw [hc, List.cons_append]
      exact skipBlanks_newline level hblank _
    simp only [htext, List.cons_append, List.append_assoc, Except.ok_bind,
      skipBlanks_cons (show isBlank ',' = false from rfl), hskip, ih]
    rfl

/-- The text of a member, with what stands behind it. -/
def memberText (level : ℕ) (m : Text × Json) (rest : List Char) : List Char :=
  (quote m.1).scalars ++ (':' :: ' ' :: ((render level m.2).scalars ++ rest))

/-- Each further member has a comma and a new line in front of it. -/
theorem scalars_renderMembers_cons (level : ℕ) (m : Text × Json) (ms : List (Text × Json))
    (rest : List Char) :
    (renderMembers level (m :: ms)).scalars ++ rest =
      ',' :: ((newline level).scalars ++
        memberText level m ((renderMembers level ms).scalars ++ rest)) := by
  obtain ⟨n, v⟩ := m
  simp [renderMembers, memberText]

/-- The text of a member starts with a quote, which is no blank. -/
theorem skipBlanks_memberText (level level' : ℕ) (m : Text × Json) (rest : List Char) :
    skipBlanks ((newline level').scalars ++ memberText level m rest) = memberText level m rest := by
  rw [memberText, scalars_quote, List.cons_append]
  exact skipBlanks_newline level' rfl _

/-- One member is read, and then what stands behind it is looked at. -/
theorem readMembers_memberText {depth level fuel : ℕ} {m : Text × Json} {rest : List Char}
    (hreads : m.2.ReadsBack) (hwithin : m.2.Within depth)
    (hhead : ∃ c cs, (render level m.2).scalars = c :: cs ∧ isBlank c = false)
    (hname : m.1.Encodable) (hfollows : Follows rest)
    (hfuel : 2 * (memberText level m rest).length ≤ fuel) :
    readMembers (fuel + 1) depth (memberText level m rest) =
      match skipBlanks rest with
      | '\x7d' :: rest => .ok ([m], rest)
      | ',' :: rest => do
        let (ms, rest) ← readMembers fuel depth (skipBlanks rest)
        return (m :: ms, rest)
      | rest => .error (.complain .expectingComma rest.length) := by
  obtain ⟨c, cs, hc, hblank⟩ := hhead
  have hvalue := @hreads depth level fuel rest hwithin hfollows (by
    simp only [memberText, List.length_append, List.length_cons] at hfuel ⊢
    omega)
  -- the blank behind the colon ends where the value starts
  have hskip (l : List Char) : skipBlanks (' ' :: c :: l) = c :: l := skipBlanks_cons hblank l
  rw [hc, List.cons_append] at hvalue
  rw [memberText, hc, scalars_quote]
  simp only [List.cons_append, List.append_assoc, List.nil_append, readMembers,
    readString_escaped hname, Except.ok_bind, skipBlanks_cons (show isBlank ':' = false from rfl),
    hskip, hvalue]
  rfl

/-- The members of an object are read back when each of their values is. -/
theorem readMembers_render {depth level level' fuel : ℕ} {m : Text × Json}
    {ms : List (Text × Json)} {rest : List Char} (hreads : ∀ n ∈ m :: ms, n.2.ReadsBack)
    (hwithin : ∀ n ∈ m :: ms, n.2.Within depth)
    (hheads : ∀ n ∈ m :: ms, ∃ c cs, (render level n.2).scalars = c :: cs ∧ isBlank c = false)
    (hnames : ∀ n ∈ m :: ms, n.1.Encodable)
    (hfuel : 2 * (memberText level m ((renderMembers level ms).scalars ++
      ((newline level').scalars ++ '\x7d' :: rest))).length + 1 ≤ fuel) :
    readMembers fuel depth (memberText level m ((renderMembers level ms).scalars ++
      ((newline level').scalars ++ '\x7d' :: rest))) = .ok (m :: ms, rest) := by
  obtain ⟨fuel, rfl⟩ : ∃ k, fuel = k + 1 := ⟨fuel - 1, by omega⟩
  induction ms generalizing m fuel with
  | nil =>
    rw [readMembers_memberText (hreads m (by simp)) (hwithin m (by simp)) (hheads m (by simp))
      (hnames m (by simp)) (scalars_renderMembers_follows _ _ _ _) (by omega)]
    simp only [renderMembers, Text.scalars_nil, List.nil_append,
      skipBlanks_newline level' (show isBlank '\x7d' = false from rfl)]
  | cons n ms ih =>
    rw [readMembers_memberText (hreads m (by simp)) (hwithin m (by simp)) (hheads m (by simp))
      (hnames m (by simp)) (scalars_renderMembers_follows _ _ _ _) (by omega)]
    -- one step is for this member, and the text of the next one is shorter
    rw [scalars_renderMembers_cons] at hfuel
    simp only [memberText, List.length_append, List.length_cons] at hfuel
    obtain ⟨fuel, rfl⟩ : ∃ k, fuel = k + 1 := ⟨fuel - 1, by omega⟩
    have ih := ih (m := n) (fun o ho => hreads o (List.mem_cons_of_mem m ho))
      (fun o ho => hwithin o (List.mem_cons_of_mem m ho))
      (fun o ho => hheads o (List.mem_cons_of_mem m ho))
      (fun o ho => hnames o (List.mem_cons_of_mem m ho)) fuel (by
        simp only [memberText, List.length_append, List.length_cons]
        omega)
    simp only [scalars_renderMembers_cons, skipBlanks_cons (show isBlank ',' = false from rfl),
      skipBlanks_memberText, ih, Except.ok_bind]
    rfl

/-- A value whose text can be written to a file and denotes it. -/
structure Writable (v : Json) : Prop extends Settled v where
  /-- Strings can be encoded. -/
  texts : v.TextsEncodable

/-- The items of a writable list are writable. -/
theorem Writable.of_mem_list {items : List Json} (h : Writable (.list items)) {v : Json}
    (hv : v ∈ items) : v.Writable :=
  ⟨settled_list.mp h.toSettled v hv, everywhere_list.mp h.texts v hv⟩

/-- So are the values of a writable object. -/
theorem Writable.of_mem_object {ms : List (Text × Json)} (h : Writable (.object ms))
    {m : Text × Json} (hm : m ∈ ms) : m.2.Writable :=
  ⟨(settled_object.mp h.toSettled).2.2 m hm, (everywhere_object.mp h.texts).2 m hm⟩

theorem Writable.head {v : Json} (h : v.Writable) (level : ℕ) :
    ∃ c cs, (render level v).scalars = c :: cs ∧ isBlank c = false ∧ c ≠ ']' ∧ c ≠ '\ufeff' :=
  render_head h.moderate h.finite level

/-- A list is read back when its items are. -/
theorem readsBack_list {items : List Json} (h : Writable (.list items))
    (ih : ∀ v ∈ items, v.ReadsBack) : ReadsBack (.list items) := by
  intro depth level fuel rest hwithin hfollows hfuel
  cases depth with
  | zero => cases hwithin
  | succ depth =>
    cases items with
    | nil =>
      obtain ⟨fuel, rfl⟩ : ∃ k, fuel = k + 1 := ⟨fuel - 1, by simp [render] at hfuel; omega⟩
      simp only [render, Text.scalars_ofString, String.reduceToList, List.cons_append,
        List.nil_append, readValue, skipBlanks_cons (show isBlank ']' = false from rfl)]
    | cons v items =>
      obtain ⟨c, cs, hc, hblank, hbracket, -⟩ :=
        (h.of_mem_list (List.mem_cons_self ..)).head (level + 1)
      have htext : (render level (.list (v :: items))).scalars ++ rest =
          '[' :: ((newline (level + 1)).scalars ++ ((render (level + 1) v).scalars ++
            ((renderItems (level + 1) items).scalars ++
              ((newline level).scalars ++ ']' :: rest)))) := by
        simp [render]
      rw [htext] at hfuel ⊢
      obtain ⟨fuel, rfl⟩ : ∃ k, fuel = k + 1 := ⟨fuel - 1, by
        simp only [List.length_cons] at hfuel
        omega⟩
      have hitems := @readItems_render depth (level + 1) level fuel v items rest ih hwithin
        (fun u hu =>
          have ⟨c, cs, hc, hblank, _⟩ := (h.of_mem_list (List.mem_cons_of_mem v hu)).head (level + 1)
          ⟨c, cs, hc, hblank⟩) (by
          simp only [List.length_append, List.length_cons] at hfuel ⊢
          omega)
      rw [hc, List.cons_append] at hitems ⊢
      simp only [readValue, skipBlanks_newline (level + 1) hblank]
      split
      -- the first item does not start with the bracket that would end an empty list
      · next heq => exact absurd (List.cons.inj heq).1 hbracket
      · rw [hitems]
        rfl

/-- An object is read back when its values are. -/
theorem readsBack_object {ms : List (Text × Json)} (h : Writable (.object ms))
    (ih : ∀ m ∈ ms, m.2.ReadsBack) : ReadsBack (.object ms) := by
  intro depth level fuel rest hwithin hfollows hfuel
  have hnodup := (everywhere_object.mp h.proper).1
  have hnames := (everywhere_object.mp h.names).1
  cases depth with
  | zero => cases hwithin
  | succ depth =>
    cases ms with
    | nil =>
      obtain ⟨fuel, rfl⟩ : ∃ k, fuel = k + 1 := ⟨fuel - 1, by simp [render] at hfuel; omega⟩
      simp only [render, Text.scalars_ofString, String.reduceToList, List.cons_append,
        List.nil_append, readValue, skipBlanks_cons (show isBlank '\x7d' = false from rfl)]
    | cons m ms =>
      have htext : (render level (.object (m :: ms))).scalars ++ rest =
          '\x7b' :: ((newline (level + 1)).scalars ++ memberText (level + 1) m
            ((renderMembers (level + 1) ms).scalars ++
              ((newline level).scalars ++ '\x7d' :: rest))) := by
        obtain ⟨n, v⟩ := m
        simp [render, memberText]
      rw [htext] at hfuel ⊢
      obtain ⟨fuel, rfl⟩ : ∃ k, fuel = k + 1 := ⟨fuel - 1, by
        simp only [List.length_cons] at hfuel
        omega⟩
      have hmembers := @readMembers_render depth (level + 1) level fuel m ms rest ih hwithin
        (fun n hn =>
          have ⟨c, cs, hc, hblank, _⟩ := (h.of_mem_object hn).head (level + 1)
          ⟨c, cs, hc, hblank⟩) (fun n hn => hnames _ (mem_names_of_mem hn)) (by
          simp only [List.length_append, List.length_cons] at hfuel ⊢
          omega)
      simp only [readValue, skipBlanks_memberText]
      split
      · next heq =>
        rw [memberText, scalars_quote, List.cons_append] at heq
        cases heq
      -- no name is repeated, so that the members that were read are those of the object
      · rw [hmembers, Except.ok_bind, ofPairs_eq_self hnodup]
        rfl

/-- **The text of a value is read back at every place of a document.** -/
theorem readsBack {v : Json} (h : v.Writable) : v.ReadsBack := by
  -- on the document; each kind takes at least one unit of fuel
  induction v with
  | list items ih => exact readsBack_list h fun v hv => ih v hv (h.of_mem_list hv)
  | object ms ih => exact readsBack_object h fun m hm => ih m hm (h.of_mem_object hm)
  | text t =>
    intro depth level fuel rest hwithin hfollows hfuel
    obtain ⟨fuel, rfl⟩ : ∃ k, fuel = k + 1 :=
      ⟨fuel - 1, by simp [render, scalars_quote] at hfuel; omega⟩
    simp only [render, scalars_quote, List.cons_append, List.append_assoc, List.nil_append,
      readValue, readString_escaped h.texts]
    rfl
  | int n =>
    intro depth level fuel rest hwithin hfollows hfuel
    have hread := readNumber_ofInt h.moderate hfollows.endsNumber
    obtain ⟨c, cs, hc, -⟩ := head_of_readNumber hread
    rw [render, Text.ofInt, Text.scalars_ofChars] at hfuel ⊢
    obtain ⟨fuel, rfl⟩ : ∃ k, fuel = k + 1 := ⟨fuel - 1, by simp [hc] at hfuel; omega⟩
    exact readValue_of_readNumber hread fuel depth
  | float x =>
    intro depth level fuel rest hwithin hfollows hfuel
    have hread := readNumber_numeral h.finite hfollows.endsNumber
    obtain ⟨c, cs, hc, -⟩ := head_of_readNumber hread
    rw [render, number_finite h.finite, Text.scalars_ofChars] at hfuel ⊢
    obtain ⟨fuel, rfl⟩ : ∃ k, fuel = k + 1 := ⟨fuel - 1, by simp [hc] at hfuel; omega⟩
    exact readValue_of_readNumber hread fuel depth
  | null =>
    intro depth level fuel rest hwithin hfollows hfuel
    obtain ⟨fuel, rfl⟩ : ∃ k, fuel = k + 1 := ⟨fuel - 1, by simp [render] at hfuel; omega⟩
    simp only [render, Text.scalars_ofString, String.reduceToList, List.cons_append,
      List.nil_append, readValue]
  | bool b =>
    intro depth level fuel rest hwithin hfollows hfuel
    cases b <;>
    · obtain ⟨fuel, rfl⟩ : ∃ k, fuel = k + 1 := ⟨fuel - 1, by simp [render] at hfuel; omega⟩
      simp only [render, Text.scalars_ofString, String.reduceToList, List.cons_append,
        List.nil_append, readValue]

/-! ## Documents -/

/-- The order of members does not matter to what can be written. -/
theorem Writable.sorted {v : Json} (h : v.Writable) : v.sorted.Writable :=
  ⟨h.toSettled.sorted, textsEncodable_sorted.mpr h.texts⟩

/-- **A canonical text denotes the value it was written for**, with its members in order. -/
theorem read_canonical {v : Json} (h : v.Writable) (hwithin : v.Within maxDepth) :
    read v.canonical.scalars = .ok v.sorted := by
  have htext : v.canonical.scalars = (render 0 v.sorted).scalars ++ ['\n'] := by
    simp [canonical]
  obtain ⟨c, cs, hc, hblank, -, hmark⟩ := h.sorted.head 0
  have hread := @readsBack _ h.sorted maxDepth 0 (2 * v.canonical.scalars.length + 2) ['\n']
    (within_sorted.mpr hwithin) (by rintro c ⟨⟩; exact .inr rfl) (by
      rw [htext]
      omega)
  rw [← htext] at hread
  -- the text starts with neither a blank nor a byte order mark, and ends in a line feed
  have hall : readAll v.canonical.scalars = .ok v.sorted := by
    rw [htext, hc, List.cons_append] at hread ⊢
    rw [readAll, if_neg (by simpa using hmark), skipBlanks_cons hblank, hread]
    rfl
  rw [read, hall]

/-! ## Characters of Canonical Texts -/

/-- Among digits there is no carriage return. -/
theorem not_mem_of_isDecimal {digits : List Char} (h : ∀ c ∈ digits, Digits.isDecimal c = true) :
    '\r' ∉ digits := fun hmem => by cases h _ hmem

/-- Nor is there one among digits with a point or an exponent, which add nothing but digits and signs. -/
theorem not_mem_layout {style : NumberStyle} {digits : List Char} (h : '\r' ∉ digits) (place : ℤ) :
    '\r' ∉ style.layout digits place := by
  have hexponent := not_mem_of_isDecimal (padded_isDecimal style.exponentWidth place.natAbs)
  have htake (k : ℕ) : '\r' ∉ digits.take k := fun hmem => h (List.mem_of_mem_take hmem)
  have hdrop (k : ℕ) : '\r' ∉ digits.drop k := fun hmem => h (List.mem_of_mem_drop hmem)
  have htail : '\r' ∉ digits.tail := fun hmem => h (List.mem_of_mem_tail hmem)
  rw [NumberStyle.layout]
  -- with an exponent or without: digits, zeros, a point and a mark, none of which is a line end
  split
  · split
    · simp [h]
    · dsimp only
      split <;> simp [htake, hdrop]
  · dsimp only
    split <;> split <;> simp [htake, htail, hexponent]

/-- No number is written with a carriage return. -/
theorem not_mem_numeral (x : Binary64) : '\r' ∉ x.numeral := by
  cases x with
  | nan negative => simp [Binary64.numeral]
  | infinite negative => cases negative <;> simp [Binary64.numeral]
  | finite negative m e hfits =>
    have hsign : '\r' ∉ if negative then ['-'] else [] := by cases negative <;> simp
    rw [Binary64.numeral, List.mem_append, not_or]
    refine ⟨hsign, ?_⟩
    split
    · simp
    · exact not_mem_layout (not_mem_of_isDecimal (Digits.ofNat_isDecimal _)) _

/-- A quoted text has no carriage return, even if the text has. -/
theorem not_mem_quote (t : Text) : '\r' ∉ (quote t).scalars := by
  rw [scalars_quote]
  induction t with
  | nil => simp
  | cons c t ih =>
    have hc : '\r' ∉ (escape c).scalars := by
      rw [escape.eq_def]
      split
      case h_8 hreturn _ _ _ =>
        split
        · next hcontrol =>
          rw [Digits.hexadecimal_four (by omega), Text.scalars_append, Text.scalars_ofChars]
          -- a carriage return is written as an escape, and no digit of an escape is one
          have hdigit (d : ℕ) (hd : d < 16) : '\r' ≠ Digits.digitChar d := by
            interval_cases d <;> decide
          simp [hdigit (c.value / 16) (by omega), hdigit (c.value % 16) (by omega)]
        · cases c with
          | scalar c => simpa using fun heq : '\r' = c => hreturn (heq ▸ rfl)
          | surrogate o => simp [Text.scalars]
      all_goals simp
    simp only [List.mem_cons, List.mem_append, List.flatMap_cons, Text.scalars_append] at ih ⊢
    tauto

theorem not_mem_newline (level : ℕ) : '\r' ∉ (newline level).scalars := by
  rw [scalars_newline]
  simp

/-- Between items there are line feeds only. -/
theorem not_mem_renderItems {level : ℕ} {items : List Json}
    (h : ∀ v ∈ items, '\r' ∉ (render level v).scalars) :
    '\r' ∉ (renderItems level items).scalars := by
  induction items with
  | nil => simp [renderItems]
  | cons v items ih =>
    obtain ⟨hv, hitems⟩ := List.forall_mem_cons.mp h
    simp [renderItems, not_mem_newline, hv, ih hitems]

/-- Between members there are line feeds only. -/
theorem not_mem_renderMembers {level : ℕ} {ms : List (Text × Json)}
    (h : ∀ m ∈ ms, '\r' ∉ (render level m.2).scalars) :
    '\r' ∉ (renderMembers level ms).scalars := by
  induction ms with
  | nil => simp [renderMembers]
  | cons m ms ih =>
    obtain ⟨hm, hms⟩ := List.forall_mem_cons.mp h
    simp [renderMembers, not_mem_newline, not_mem_quote, hm, ih hms]

/-- No finite value is written with a carriage return. -/
theorem not_mem_render {v : Json} (hfinite : v.Finite) (level : ℕ) :
    '\r' ∉ (render level v).scalars := by
  -- on the document: texts are quoted and numerals consist of digits and signs
  induction v generalizing level with
  | null => simp [render]
  | bool b => cases b <;> simp [render]
  | int n =>
    rw [render, Text.ofInt, Text.scalars_ofChars, ofInt_eq]
    have hdigits := not_mem_of_isDecimal (Digits.ofNat_isDecimal n.natAbs)
    split <;> simp [hdigits]
  | float x =>
    rw [render, number_finite hfinite, Text.scalars_ofChars]
    exact not_mem_numeral x
  | text t => exact not_mem_quote t
  | list items ih =>
    have hitems := fun v hv => ih v hv (everywhere_list.mp hfinite v hv) (level + 1)
    cases items with
    | nil => simp [render]
    | cons v items =>
      obtain ⟨hv, hitems⟩ := List.forall_mem_cons.mp hitems
      simp [render, not_mem_newline, hv, not_mem_renderItems hitems]
  | object ms ih =>
    have hms := fun m hm => ih m hm ((everywhere_object.mp hfinite).2 m hm) (level + 1)
    cases ms with
    | nil => simp [render]
    | cons m ms =>
      obtain ⟨hm, hms⟩ := List.forall_mem_cons.mp hms
      simp [render, not_mem_newline, not_mem_quote, hm, not_mem_renderMembers hms]

/-- A canonical text is not changed by the treatment of line endings. -/
theorem not_mem_canonical {v : Json} (hfinite : v.Finite) : '\r' ∉ v.canonical.scalars := by
  simp [canonical, not_mem_render (finite_sorted.mpr hfinite)]

/-! ## Encodable Texts -/

/-- The escapes of characters consist of characters. -/
theorem encodable_escape {c : Codepoint} (h : c.isSurrogate = false) : (escape c).Encodable := by
  rw [escape.eq_def]
  split
  case h_8 =>
    split
    · exact Text.encodable_append.mpr ⟨Text.encodable_ofString _, Text.encodable_ofChars _⟩
    · exact List.forall_mem_singleton.mpr h
  all_goals exact Text.encodable_ofString _

/-- Quoting neither adds nor removes a lone surrogate. -/
theorem encodable_quote {t : Text} : (quote t).Encodable ↔ t.Encodable := by
  constructor
  · intro h c hc
    cases c with
    | scalar c => rfl
    | surrogate o =>
      -- a lone surrogate stands in the text as it is
      have hescape : Codepoint.surrogate o ∈ escape (.surrogate o) := by
        have hvalue : ¬Codepoint.value (.surrogate o) < 0x20 := by
          simp only [Codepoint.value]
          omega
        simp [escape, hvalue]
      refine h _ ?_
      rw [quote, List.cons_append]
      exact List.mem_cons_of_mem _
        (List.mem_append_left _ (List.mem_flatMap.mpr ⟨_, hc, hescape⟩))
  · intro h
    rw [quote, Text.encodable_append, Text.encodable_cons]
    refine ⟨fun c hc => ?_, by simp⟩
    obtain ⟨d, hd, hc⟩ := List.mem_flatMap.mp hc
    exact encodable_escape (h d hd) c hc

theorem encodable_newline (level : ℕ) : (newline level).Encodable := by
  intro c hc
  rcases List.mem_cons.mp hc with rfl | hc
  · rfl
  · rw [List.eq_of_mem_replicate hc]
    rfl

/-- Numbers are written in characters. -/
theorem encodable_number (x : Binary64) : (number x).Encodable := by
  cases x with
  | nan negative => exact Text.encodable_ofString _
  | infinite negative => cases negative <;> exact Text.encodable_ofString _
  | finite negative m e hfits => exact Text.encodable_ofChars _

/-- Items can be encoded when each of them can. -/
theorem encodable_renderItems {level : ℕ} {items : List Json} :
    (renderItems level items).Encodable ↔ ∀ v ∈ items, (render level v).Encodable := by
  induction items with
  | nil => simp [renderItems]
  | cons v items ih =>
    simp only [renderItems, Text.encodable_append, List.forall_mem_cons, ih]
    simp [encodable_newline]

/-- Members with encodable names can be encoded when each of their values can. -/
theorem encodable_renderMembers {level : ℕ} {ms : List (Text × Json)}
    (hnames : ∀ n ∈ names ms, n.Encodable) :
    (renderMembers level ms).Encodable ↔ ∀ m ∈ ms, (render level m.2).Encodable := by
  induction ms with
  | nil => simp [renderMembers]
  | cons m ms ih =>
    obtain ⟨hname, hnames⟩ := List.forall_mem_cons.mp hnames
    simp only [renderMembers, Text.encodable_append, List.forall_mem_cons, ih hnames]
    simp [encodable_newline, encodable_quote, hname]

/-- A value with encodable names can be encoded when its strings can. -/
theorem encodable_render {v : Json} (hnames : v.NamesEncodable) (level : ℕ) :
    (render level v).Encodable ↔ v.TextsEncodable := by
  -- on the document: only its texts may hold what has no encoding
  induction v generalizing level with
  | null => exact iff_of_true (Text.encodable_ofString _) trivial
  | bool b => cases b <;> exact iff_of_true (Text.encodable_ofString _) trivial
  | int n => exact iff_of_true (Text.encodable_ofChars _) trivial
  | float x => exact iff_of_true (encodable_number x) trivial
  | text t => exact encodable_quote
  | list items ih =>
    have hitems : ∀ v ∈ items, ((render (level + 1) v).Encodable ↔ v.TextsEncodable) :=
      fun v hv => ih v hv (everywhere_list.mp hnames v hv) (level + 1)
    rw [TextsEncodable, everywhere_list, ← TextsEncodable, ← forall₂_congr hitems]
    cases items with
    | nil => simp [render]
    | cons v items =>
      simp only [render, Text.encodable_append, List.forall_mem_cons, encodable_renderItems]
      simp [encodable_newline]
  | object ms ih =>
    obtain ⟨hnames, hvalues⟩ := everywhere_object.mp hnames
    have hms : ∀ m ∈ ms, ((render (level + 1) m.2).Encodable ↔ m.2.TextsEncodable) :=
      fun m hm => ih m hm (hvalues m hm) (level + 1)
    rw [TextsEncodable, everywhere_object, true_and, ← TextsEncodable, ← forall₂_congr hms]
    cases ms with
    | nil => simp [render]
    | cons m ms =>
      obtain ⟨hname, hnames⟩ := List.forall_mem_cons.mp hnames
      simp only [render, Text.encodable_append, List.forall_mem_cons,
        encodable_renderMembers hnames]
      simp [encodable_newline, encodable_quote, hname]

/-- **With encodable names, a canonical text can be encoded exactly when the strings of its value can.** -/
theorem encodable_canonical {v : Json} (hnames : v.NamesEncodable) :
    v.canonical.Encodable ↔ v.TextsEncodable := by
  rw [canonical, Text.encodable_append, encodable_render (namesEncodable_sorted.mpr hnames),
    textsEncodable_sorted]
  exact and_iff_left (Text.encodable_ofString _)

end SchemaGraft.Json
