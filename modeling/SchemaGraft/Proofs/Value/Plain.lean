import SchemaGraft.Proofs.Json.Normal
import SchemaGraft.Proofs.Outcome
import SchemaGraft.Schema.Canonical

/-!
# JSON Forms of Data Values

The JSON form of a data value is settled, it is its own JSON form, and it is not nested more deeply than
the value was allowed to be.

## Architecture

- **Embedding**: `Value.ofJson` is injective, and commutes with look-up.
- **Forms**: `FormOf` collects what is known of the form of any value.
- **Forms of JSON values**: `plainWithin_ofJson` says what the form of a JSON value is, and
  `Value.Plainable` when there is one; that does not depend on the order of members.
-/

namespace SchemaGraft

open Json (names mapValues byName)

/-! ## Scalars -/

/-- Bytes that are a text have no lone surrogate. -/
theorem Utf8.encodable_textOfBytes {bs : Bytes} {t : Text} (h : Scalar.textOfBytes bs = .ok t) :
    t.Encodable := by
  rw [Scalar.textOfBytes] at h
  split at h
  · cases h
    exact Text.encodable_ofChars _
  · cases h

namespace Scalar

/-- A text is a name of a member if it can be encoded, and stands for itself then. -/
theorem memberName_text_iff {t n : Text} :
    (Scalar.text t).memberName = .ok n ↔ t.Encodable ∧ t = n := by
  rw [memberName]
  -- a name is written as it is, or cannot be encoded
  cases hencode : Utf8.encode t with
  | ok bs =>
    have ht := (Utf8.encode_ok_iff.mp hencode).1
    simp [ht]
  | error f =>
    have ht : ¬t.Encodable := fun ht => by
      rw [Utf8.encode_ok_iff.mpr ⟨ht, rfl⟩] at hencode
      cases hencode
    simp [ht]

/-- The name under which a key is written can always be encoded. -/
theorem encodable_memberName {s : Scalar} {n : Text} (h : s.memberName = .ok n) : n.Encodable := by
  cases s with
  | null => cases h; exact Text.encodable_ofString _
  | bool b => cases b <;> cases h <;> exact Text.encodable_ofString _
  | int m =>
    rw [memberName] at h
    split at h
    · cases h
    · cases h
      exact Text.encodable_ofChars _
  | float x =>
    cases h
    split
    · exact Text.encodable_ofChars _
    · exact Text.encodable_ofString _
  -- a text is the one kind of key that may not have such a name
  | text t =>
    obtain ⟨ht, rfl⟩ := memberName_text_iff.mp h
    exact ht
  | bytes bs => exact Utf8.encodable_textOfBytes h
  | date d => cases h; exact Text.encodable_ofChars _
  | timestamp t =>
    cases h
    exact Text.encodable_append.mpr ⟨Text.encodable_ofChars _, Text.encodable_ofChars _⟩

/-- The form of a scalar is a settled scalar, and its own form. -/
theorem plain_spec {s : Scalar} {j : Json} (h : s.plain = .ok j) :
    j.isScalar = true ∧ j.Settled ∧ ∀ depth, Value.plainWithin (depth + 1) (.ofJson j) = .ok j := by
  have htrivial {j : Json} (hscalar : j.isScalar = true) (hmoderate : j.Moderate)
      (hfinite : j.Finite) : j.Settled :=
    ⟨(Json.everywhere_scalar hscalar).mpr trivial, (Json.everywhere_scalar hscalar).mpr trivial,
      hmoderate, hfinite⟩
  cases s with
  | null => cases h; exact ⟨rfl, htrivial rfl trivial trivial, fun _ => rfl⟩
  | bool b => cases h; exact ⟨rfl, htrivial rfl trivial trivial, fun _ => rfl⟩
  | int n =>
    simp only [plain] at h
    split at h
    · cases h
    · next hn =>
      cases h
      have hmoderate : (Json.int n).Moderate := by
        rw [Json.moderate_int]
        -- the power is not to be computed
        generalize Json.maxIntegerDigits = k at hn ⊢
        exact Nat.lt_of_not_le hn
      refine ⟨rfl, htrivial rfl hmoderate trivial, fun _ => ?_⟩
      simp only [Value.ofJson, Value.plainWithin, plain, if_neg hn]
  | float x =>
    cases h
    split
    · next hx =>
      refine ⟨rfl, htrivial rfl trivial hx, fun _ => ?_⟩
      simp [Value.ofJson, Value.plainWithin, plain, hx]
    · exact ⟨rfl, htrivial rfl trivial trivial, fun _ => rfl⟩
  | text t => cases h; exact ⟨rfl, htrivial rfl trivial trivial, fun _ => rfl⟩
  | bytes bs =>
    obtain ⟨t, -, rfl⟩ := Except.map_eq_ok_iff.mp h
    exact ⟨rfl, htrivial rfl trivial trivial, fun _ => rfl⟩
  | date d => cases h; exact ⟨rfl, htrivial rfl trivial trivial, fun _ => rfl⟩
  | timestamp t => cases h; exact ⟨rfl, htrivial rfl trivial trivial, fun _ => rfl⟩

end Scalar

namespace Value

/-! ## Embedding -/

@[simp] theorem ofJson_list (items : List Json) :
    ofJson (.list items) = .list (items.map ofJson) := by
  rw [ofJson]
  congr 1
  induction items with
  | nil => rfl
  | cons v rest ih => rw [ofJsonItems, ih, List.map_cons]

/-- Members with texts as names, as the entries of a mapping. -/
theorem ofJsonMembers_eq (ms : List (Text × Json)) :
    ofJsonMembers ms = TypeRef.entries (mapValues ofJson ms) := by
  induction ms with
  | nil => rfl
  | cons m rest ih => rw [ofJsonMembers, ih]; rfl

@[simp] theorem ofJson_object (ms : List (Text × Json)) :
    ofJson (.object ms) = .object (TypeRef.entries (mapValues ofJson ms)) := by
  rw [ofJson, ofJsonMembers_eq]

/-- Lists are the same when a function that tells their items apart gives the same for both. -/
theorem eq_of_map_eq {α β : Type} {f : α → β} {as bs : List α}
    (hf : ∀ a ∈ as, ∀ b, f a = f b → a = b) (h : as.map f = bs.map f) : as = bs := by
  induction as generalizing bs with
  | nil => exact (List.map_eq_nil_iff.mp h.symm).symm
  | cons a as ih =>
    cases bs with
    | nil => cases h
    | cons b bs =>
      obtain ⟨ha, has⟩ := List.forall_mem_cons.mp hf
      obtain ⟨hhead, htail⟩ := List.cons.inj h
      rw [ha b hhead, ih has htail]

/-- Different members are different entries. -/
theorem entries_injective : Function.Injective TypeRef.entries := by
  intro ms ns
  apply eq_of_map_eq
  intro m _ n hmn
  exact Prod.ext (Scalar.text.inj (Prod.mk.inj hmn).1) (Prod.mk.inj hmn).2

/-- Different JSON values are different data. -/
theorem ofJson_injective : Function.Injective ofJson := by
  intro u
  induction u with
  -- items are told apart one by one, by the induction
  | list items ih =>
    intro v h
    cases v with
    | list items' =>
      rw [ofJson_list, ofJson_list] at h
      rw [eq_of_map_eq (fun w hw _ => @ih w hw _) (Value.list.inj h)]
    | _ => simp [ofJson] at h
  | object ms ih =>
    intro v h
    cases v with
    | object ns =>
      rw [ofJson_object, ofJson_object] at h
      rw [eq_of_map_eq (fun m hm n hmn => Prod.ext (Prod.mk.inj hmn).1
        (ih m hm (Prod.mk.inj hmn).2)) (entries_injective (Value.object.inj h))]
    | _ => simp [ofJson] at h
  | _ =>
    intro v h
    cases v <;> simp_all [ofJson]

/-! ## Forms -/

/-- The form of an entry of a mapping. -/
def plainEntry (depth : ℕ) (m : Scalar × Value) : Except PlainFault (Text × Json) := do
  let name ← m.1.memberName
  let value ← plainWithin depth m.2
  return (name, value)

/-- An entry is written when its key and its value are. -/
theorem plainEntry_eq_ok_iff {depth : ℕ} {m : Scalar × Value} {r : Text × Json} :
    plainEntry depth m = .ok r ↔ m.1.memberName = .ok r.1 ∧ plainWithin depth m.2 = .ok r.2 := by
  rw [plainEntry, Except.bind_eq_ok_iff]
  simp only [Except.bind_pure_eq_ok_iff]
  constructor
  · rintro ⟨n, hn, v, hv, rfl⟩
    exact ⟨hn, hv⟩
  · rintro ⟨hn, hv⟩
    exact ⟨r.1, hn, r.2, hv, rfl⟩

/-- Items are written one by one. -/
theorem plainItems_eq (depth : ℕ) (items : List Value) :
    plainItems depth items = items.mapM (plainWithin depth) := by
  induction items with
  | nil => rfl
  | cons v rest ih => rw [plainItems, ih, List.mapM_cons]

/-- So are entries. -/
theorem plainMembers_eq (depth : ℕ) (ms : List (Scalar × Value)) :
    plainMembers depth ms = ms.mapM (plainEntry depth) := by
  induction ms with
  | nil => rfl
  | cons m rest ih =>
    obtain ⟨k, v⟩ := m
    rw [plainMembers, ih, List.mapM_cons, plainEntry]
    simp only [bind_assoc, pure_bind]

/-- A list takes one level of what is left. -/
theorem plainWithin_list {depth : ℕ} {items : List Value} {j : Json} :
    plainWithin (depth + 1) (.list items) = .ok j ↔
      ∃ js, items.mapM (plainWithin depth) = .ok js ∧ .list js = j := by
  rw [plainWithin, plainItems_eq, Except.bind_pure_eq_ok_iff]

/-- So does a mapping, in which no name is repeated. -/
theorem plainWithin_object {depth : ℕ} {ms : List (Scalar × Value)} {j : Json} :
    plainWithin (depth + 1) (.object ms) = .ok j ↔
      ∃ ps, ms.mapM (plainEntry depth) = .ok ps ∧ .object (Json.ofPairs ps) = j := by
  rw [plainWithin, plainMembers_eq, Except.bind_pure_eq_ok_iff]

/-- A form within a depth is one within every greater depth. -/
theorem plainWithin_succ {depth : ℕ} {v : Value} {j : Json} (h : plainWithin depth v = .ok j) :
    plainWithin (depth + 1) v = .ok j := by
  induction depth generalizing v j with
  | zero => simp [plainWithin] at h
  | succ depth ih =>
    cases v with
    | scalar s => exact h
    | list items =>
      obtain ⟨js, hjs, rfl⟩ := plainWithin_list.mp h
      refine plainWithin_list.mpr ⟨js, ?_, rfl⟩
      rw [Except.mapM_eq_ok_iff] at hjs ⊢
      exact hjs.imp fun v j hv => ih hv
    | pair a b =>
      rw [plainWithin] at h ⊢
      simp only [Except.bind_eq_ok_iff] at h ⊢
      obtain ⟨ja, ha, jb, hb, h⟩ := h
      exact ⟨ja, ih ha, jb, ih hb, h⟩
    -- a set is written only if it is empty
    | set members =>
      rw [plainWithin] at h ⊢
      split at h
      · cases h
      · rwa [if_neg fun hzero => by simp at hzero]
    | object ms =>
      obtain ⟨ps, hps, rfl⟩ := plainWithin_object.mp h
      refine plainWithin_object.mpr ⟨ps, ?_, rfl⟩
      rw [Except.mapM_eq_ok_iff] at hps ⊢
      refine hps.imp fun m p hm => ?_
      rw [plainEntry_eq_ok_iff] at hm ⊢
      exact ⟨hm.1, ih hm.2⟩
    | cycle isObject => cases h

/-- What is known of the form of a value: it is settled, not too deep, and its own form. -/
structure FormOf (depth : ℕ) (j : Json) : Prop where
  /-- The form is settled. -/
  settled : j.Settled
  /-- The form is nested at most `depth` times. -/
  within : j.Within depth
  /-- The form is its own form. -/
  again : plainWithin depth (ofJson j) = .ok j

/-- The form of a list is a list of forms. -/
theorem formOf_list {depth : ℕ} {js : List Json} (h : ∀ j ∈ js, FormOf depth j) :
    FormOf (depth + 1) (.list js) where
  settled := Json.settled_list.mpr fun j hj => (h j hj).settled
  within := fun j hj => (h j hj).within
  again := by
    rw [ofJson_list, plainWithin_list]
    exact ⟨js, Except.mapM_map_eq_ok fun j hj => (h j hj).again, rfl⟩

/-- The form of a mapping has encodable names, none of which is repeated. -/
theorem formOf_object {depth : ℕ} {ps : List (Text × Json)}
    (hnames : ∀ p ∈ ps, p.1.Encodable) (h : ∀ p ∈ ps, FormOf depth p.2) :
    FormOf (depth + 1) (.object (Json.ofPairs ps)) := by
  -- of members with one name the last is written, which is one of those that were given
  have hmem : ∀ p ∈ Json.ofPairs ps, p ∈ ps := fun p => Json.mem_of_mem_ofPairs
  refine ⟨?_, fun p hp => (h p (hmem p hp)).within, ?_⟩
  · refine Json.settled_object.mpr ⟨Json.nodup_names_ofPairs ps, ?_, fun p hp =>
      (h p (hmem p hp)).settled⟩
    intro n hn
    obtain ⟨p, hp, rfl⟩ := List.mem_map.mp hn
    exact hnames p (hmem p hp)
  · rw [ofJson_object, plainWithin_object]
    refine ⟨Json.ofPairs ps, ?_, by rw [Json.ofPairs_eq_self (Json.nodup_names_ofPairs ps)]⟩
    rw [TypeRef.entries, mapValues, List.map_map]
    refine Except.mapM_map_eq_ok fun p hp => plainEntry_eq_ok_iff.mpr ⟨?_, (h p (hmem p hp)).again⟩
    exact Scalar.memberName_text_iff.mpr ⟨hnames p (hmem p hp), rfl⟩

/-- A scalar has the same form at every level. -/
theorem formOf_scalar {s : Scalar} {j : Json} (h : s.plain = .ok j) (depth : ℕ) :
    FormOf (depth + 1) j := by
  obtain ⟨hscalar, hsettled, hagain⟩ := Scalar.plain_spec h
  exact ⟨hsettled, Json.within_scalar hscalar _, hagain depth⟩

/-- **The JSON form of every value is settled and its own form.** -/
theorem formOf_plainWithin {depth : ℕ} {v : Value} {j : Json} (h : plainWithin depth v = .ok j) :
    FormOf depth j := by
  induction depth generalizing v j with
  | zero => simp [plainWithin] at h
  | succ depth ih =>
    cases v with
    | scalar s => exact formOf_scalar h depth
    | list items =>
      obtain ⟨js, hjs, rfl⟩ := plainWithin_list.mp h
      refine formOf_list fun j hj => ?_
      obtain ⟨v, -, hv⟩ := Except.exists_of_mem_mapM hjs hj
      exact ih hv
    | pair a b =>
      simp only [plainWithin, Except.bind_eq_ok_iff] at h
      obtain ⟨ja, ha, jb, hb, h⟩ := h
      cases h
      exact formOf_list (by simpa using ⟨ih ha, ih hb⟩)
    | set members =>
      -- a set that is not empty is as deep as its members, which are scalars
      rw [plainWithin] at h
      split at h
      · cases h
      · next hdepth =>
        obtain ⟨js, hjs, rfl⟩ := Except.bind_pure_eq_ok_iff.mp h
        refine formOf_list fun j hj => ?_
        obtain ⟨s, hs, hplain⟩ := Except.exists_of_mem_mapM hjs hj
        cases depth with
        | zero => exact absurd ⟨rfl, List.ne_nil_of_mem hs⟩ hdepth
        | succ depth => exact formOf_scalar hplain depth
    | object ms =>
      obtain ⟨ps, hps, rfl⟩ := plainWithin_object.mp h
      refine formOf_object (fun p hp => ?_) fun p hp => ?_
      · obtain ⟨m, -, hm⟩ := Except.exists_of_mem_mapM hps hp
        exact Scalar.encodable_memberName (plainEntry_eq_ok_iff.mp hm).1
      · obtain ⟨m, -, hm⟩ := Except.exists_of_mem_mapM hps hp
        exact ih (plainEntry_eq_ok_iff.mp hm).2
    | cycle isObject => cases h

/-! ## Forms of JSON Values -/

/-- A number of a document that is not finite is written as null, and other scalars as they are. -/
theorem plainWithin_scalar {depth : ℕ} {v j : Json} (hv : v.isScalar = true)
    (h : plainWithin depth (ofJson v) = .ok j) : j = v.finiteForm := by
  -- of the scalars only integers may be refused
  cases depth with
  | zero => simp [plainWithin] at h
  | succ depth =>
    cases v with
    | int n =>
      simp only [ofJson, plainWithin, Scalar.plain] at h
      split at h <;> cases h
      rfl
    | list items => cases hv
    | object ms => cases hv
    | _ => cases h; rfl

/-- The form of a JSON value: numbers without a finite value are dropped.  Its names stay, since they can be
encoded. -/
theorem plainWithin_ofJson {depth : ℕ} {v j : Json} (h : plainWithin depth (ofJson v) = .ok j) :
    j = v.written := by
  induction v generalizing depth j with
  | list items ih =>
    cases depth with
    | zero => simp [plainWithin] at h
    | succ depth =>
      rw [ofJson_list, plainWithin_list] at h
      obtain ⟨js, hjs, rfl⟩ := h
      -- item by item, next to the induction on the value
      rw [Except.mapM_eq_ok_iff, List.forall₂_map_left_iff] at hjs
      rw [Json.written_list]
      congr 1
      induction hjs with
      | nil => rfl
      | cons hv _ ihl =>
        rw [List.map_cons, ih _ (by simp) hv,
          ihl fun u hu => ih u (List.mem_cons_of_mem _ hu)]
  | object ms ih =>
    cases depth with
    | zero => simp [plainWithin] at h
    | succ depth =>
      rw [ofJson_object, plainWithin_object] at h
      obtain ⟨ps, hps, rfl⟩ := h
      rw [Except.mapM_eq_ok_iff, TypeRef.entries, mapValues, List.map_map,
        List.forall₂_map_left_iff] at hps
      rw [Json.written_object, Json.renamedMembers]
      -- both sides drop repeated names afterwards, so the pairs are compared before that
      congr 2
      induction hps with
      | nil => rfl
      | cons hm _ ihl =>
        obtain ⟨hname, hvalue⟩ := plainEntry_eq_ok_iff.mp hm
        rw [Json.mapValues_cons, List.map_cons, ← ihl fun n hn => ih n (List.mem_cons_of_mem _ hn)]
        congr 1
        obtain ⟨hencodable, hsame⟩ := Scalar.memberName_text_iff.mp hname
        exact Prod.ext (hsame.symm.trans (Text.asName_eq_self hencodable).symm) (ih _ (by simp) hvalue)
  | _ =>
    rw [Json.written, Json.dropNonFinite_scalar rfl,
      Json.renamed_scalar (Json.isScalar_finiteForm rfl)]
    exact plainWithin_scalar rfl h

/-- Has the JSON value a form within the given depth? -/
def Plainable (depth : ℕ) (v : Json) : Prop :=
  ∃ j, plainWithin depth (ofJson v) = .ok j

/-- A list can be written when its items can, one level further inside. -/
theorem plainable_list {depth : ℕ} {items : List Json} :
    Plainable (depth + 1) (.list items) ↔ ∀ v ∈ items, Plainable depth v := by
  have hitems := @Except.exists_mapM_iff _ _ _ (plainWithin depth) (items.map ofJson)
  rw [List.forall_mem_map] at hitems
  simp only [Plainable, ofJson_list, plainWithin_list]
  rw [← hitems]
  constructor
  · rintro ⟨_, js, hjs, -⟩
    exact ⟨js, hjs⟩
  · rintro ⟨js, hjs⟩
    exact ⟨_, js, hjs, rfl⟩

/-- A mapping can be written when its names can be encoded and its values written. -/
theorem plainable_object {depth : ℕ} {ms : List (Text × Json)} :
    Plainable (depth + 1) (.object ms) ↔ ∀ m ∈ ms, m.1.Encodable ∧ Plainable depth m.2 := by
  -- an entry is written if its name is, and its value one level deeper
  have hentry (m : Text × Json) :
      (∃ r, plainEntry depth (.text m.1, ofJson m.2) = .ok r) ↔
        m.1.Encodable ∧ Plainable depth m.2 := by
    simp only [plainEntry_eq_ok_iff, Scalar.memberName_text_iff]
    constructor
    · rintro ⟨r, ⟨hname, -⟩, h⟩
      exact ⟨hname, r.2, h⟩
    · rintro ⟨hname, j, h⟩
      exact ⟨(m.1, j), ⟨hname, rfl⟩, h⟩
  have hms := @Except.exists_mapM_iff _ _ _ (plainEntry depth)
    (TypeRef.entries (mapValues ofJson ms))
  rw [TypeRef.entries, mapValues, List.map_map, List.forall_mem_map] at hms
  rw [← forall₂_congr fun m _ => hentry m]
  refine Iff.trans ?_ hms
  simp only [Plainable, ofJson_object, plainWithin_object, TypeRef.entries, mapValues, List.map_map]
  constructor
  · rintro ⟨_, ps, hps, -⟩
    exact ⟨ps, hps⟩
  · rintro ⟨ps, hps⟩
    exact ⟨_, ps, hps, rfl⟩

/-- Whether a value has a form does not depend on the order of members. -/
theorem plainable_sorted {depth : ℕ} {v : Json} :
    Plainable depth v.sorted ↔ Plainable depth v := by
  have hzero (u : Json) : ¬Plainable 0 u := by simp [Plainable, plainWithin]
  -- on the document: sorting keeps the members, and each has its form or has none
  induction v generalizing depth with
  | list items ih =>
    cases depth with
    | zero => exact iff_of_false (hzero _) (hzero _)
    | succ depth =>
      rw [Json.sorted_list, plainable_list, plainable_list, List.forall_mem_map]
      exact forall₂_congr fun v hv => ih v hv
  | object ms ih =>
    cases depth with
    | zero => exact iff_of_false (hzero _) (hzero _)
    | succ depth =>
      rw [Json.sorted_object, plainable_object, plainable_object]
      simp only [(Json.byName_perm _).mem_iff, mapValues, List.forall_mem_map]
      exact forall₂_congr fun m hm => and_congr_right fun _ => ih m hm
  | _ => exact Iff.rfl

/-- The form of a JSON value is what it is written as. -/
theorem plain_ofJson_iff {v j : Json} :
    (ofJson v).plain = .ok j ↔ Plainable maxPlainDepth v ∧ v.written = j := by
  constructor
  · intro h
    exact ⟨⟨j, h⟩, (plainWithin_ofJson h).symm⟩
  · rintro ⟨⟨j', h⟩, rfl⟩
    rw [← plainWithin_ofJson h]
    exact h

end Value

/-! ## Forms of Members and Types -/

section

variable {ms : List (Text × Value)} {ps : List (Text × Json)}

/-- Members have forms only if their values do. -/
theorem exists_plain_of_plainExtras (h : plainExtras ms = .ok ps) :
    ∀ m ∈ ms, ∃ j, m.2.plain = .ok j := by
  intro m hm
  obtain ⟨p, hp⟩ := Except.exists_mapM_iff.mp ⟨ps, h⟩ m hm
  obtain ⟨j, hj, -⟩ := Except.bind_pure_eq_ok_iff.mp hp
  exact ⟨j, hj⟩

/-- So it is with a free mapping. -/
theorem exists_plain_of_plainAccount {j : Json} (h : plainAccount ms = .ok j) :
    ∀ m ∈ ms, ∃ j, m.2.plain = .ok j := by
  obtain ⟨es, hes, -⟩ := Except.bind_pure_eq_ok_iff.mp h
  obtain ⟨qs, hqs, -⟩ := Except.bind_pure_eq_ok_iff.mp hes
  intro m hm
  obtain ⟨p, hp⟩ := Except.exists_mapM_iff.mp ⟨qs, hqs⟩ m hm
  obtain ⟨j, hj, -⟩ := Except.bind_pure_eq_ok_iff.mp hp
  exact ⟨j, hj⟩

end

/-- A description of a type has a form as any value only if it has one as a free mapping, so it is the form
as a free mapping that is written. -/
theorem TypeRef.plain_composite_iff {ms : List (Text × Value)} {j : Json} :
    (TypeRef.composite ms).plain = .ok j ↔ plainAccount ms = .ok j := by
  rw [TypeRef.plain, plainAccount]
  cases hentries : plainEntries ms with
  | ok es => exact Iff.rfl
  | error f =>
    refine iff_of_false (fun h => ?_) (by simp)
    obtain ⟨ps, hps, -⟩ := Value.plainWithin_object.mp h
    -- each value has a form within one level less, and so within the level that it is given alone
    have hvalues : ∀ m ∈ ms, ∃ p, (do return (m.1.asName, ← m.2.plain) :
        Except PlainFault (Text × Json)) = .ok p := by
      intro m hm
      obtain ⟨r, hr⟩ := Except.exists_mapM_iff.mp ⟨ps, hps⟩ (.text m.1, m.2)
        (List.mem_map_of_mem hm)
      have hvalue := Value.plainWithin_succ (Value.plainEntry_eq_ok_iff.mp hr).2
      exact ⟨_, Except.bind_pure_eq_ok_iff.mpr ⟨r.2, hvalue, rfl⟩⟩
    obtain ⟨qs, hqs⟩ := Except.exists_mapM_iff.mpr hvalues
    rw [plainEntries, hqs] at hentries
    cases hentries

end SchemaGraft
