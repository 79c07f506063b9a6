import SchemaGraft.Proofs.Json.Editing
import SchemaGraft.Proofs.Validation.Checks
import SchemaGraft.Proofs.Value.Spelling
import SchemaGraft.Schema.Validation

/-!
# Formats

Every kind of value in a schema has a check that reads it and a form that it is written in.  A format
puts the two together, and its laws say how they fit.

## Architecture

- **Formats**: `Format` with `Format.Lawful`; the laws are those that carry over from the parts of a
  record to the record.
- **Scalars**: texts, optional texts and the numbers of errors, by `Format.Lawful.of_scalar`.
- **Mappings**: free mappings, and the types of arguments.
- **Lists**: `Format.list` for the items of any lawful format.
-/

namespace SchemaGraft

open Except (LiftRel)
open Json (names mapValues)

/-! ## Formats -/

/-- How values of a kind are read from documents and written into them. -/
structure Format (α : Type) where
  /-- The check that reads a value. -/
  read : Value → Checked α
  /-- What a value is written as. -/
  write : α → Except PlainFault Json
  /-- The value with all its mappings in order. -/
  ordered : α → α
  /-- The value that comes back when it has been written. -/
  settled : α → α
  /-- What a value must be like to come back. -/
  WellFormed : α → Prop
  /-- Does the value hold finite numbers only? -/
  Finite : α → Prop
  /-- The document with the conversions that the check makes. -/
  normal : Json → Json
  /-- The greatest depth of what is written. -/
  depth : ℕ

/-- Values that are written alike: in the same way up to the order of members, or both not, with kindred
faults. -/
def Format.Alike {α : Type} (encodable : Prop) (F : Format α) (a b : α) : Prop :=
  LiftRel (PlainFault.Kindred encodable) (fun i j => i.sorted = j.sorted) (F.write a) (F.write b)

/-- Whatever is read is alike to itself. -/
theorem Format.Alike.refl {α : Type} (encodable : Prop) (F : Format α) (a : α) :
    F.Alike encodable a a := by
  rw [Alike]
  cases F.write a with
  | ok j => exact .ok rfl
  | error f => exact .error (.inl rfl)

/-- The laws of a format. -/
structure Format.Lawful {α : Type} (F : Format α) : Prop where
  /-- What is read from a document is well formed. -/
  wellFormed {u : Json} {a : α} (hu : u.Proper) (h : F.read (.ofJson u) = .ok a) : F.WellFormed a
  /-- Reading does not depend on the order of members, whether it succeeds or not. -/
  orderless {u v : Json} (hu : u.Proper) (huv : u.sorted = v.sorted) :
    LiftRel Eq (fun a b => F.ordered a = F.ordered b) (F.read (.ofJson u)) (F.read (.ofJson v))
  /-- Writing what was read does not depend on it either, if names stay apart. -/
  alike {encodable : Prop} {u v : Json} {a b : α} (huv : Json.Respelled encodable u v)
    (ha : F.read (.ofJson u) = .ok a) (hb : F.read (.ofJson v) = .ok b) : F.Alike encodable a b
  /-- What is written is read back, as a value that is written in the same way. -/
  comesBack {a : α} {j : Json} (ha : F.WellFormed a) (h : F.write a = .ok j) :
    j.Settled ∧ j.Within F.depth ∧ F.read (.ofJson j) = .ok (F.settled a) ∧
      F.write (F.settled a) = .ok j
  /-- What is written for a document is the document itself, up to order and conversions. -/
  written {u : Json} {a : α} {j : Json} (hu : u.Proper) (h : F.read (.ofJson u) = .ok a)
    (hj : F.write a = .ok j) : j.sorted = (F.normal u).written.sorted
  /-- A value from a document that can be written in full comes back as it was. -/
  kept {u : Json} {a : α} {j : Json} (hu : u.Proper) (hnames : u.NamesEncodable)
    (hfinite : u.Finite) (h : F.read (.ofJson u) = .ok a) (hj : F.write a = .ok j) :
    F.settled a = a
  /-- A value of finite numbers comes from a document of finite numbers. -/
  finite {u : Json} {a : α} (h : F.read (.ofJson u) = .ok a) (ha : F.Finite a) (hu : u.Proper) :
    u.Finite
  /-- Values that are equal up to order come from documents that both have encodable names. -/
  sameNames {u v : Json} {a b : α} (hu : F.read (.ofJson u) = .ok a)
    (hv : F.read (.ofJson v) = .ok b) (hab : F.ordered a = F.ordered b) (hup : u.Proper)
    (hvp : v.Proper) (hnames : u.NamesEncodable) : v.NamesEncodable

namespace Format

variable {α : Type}

/-! ## Scalars -/

/-- A format of values without parts. -/
def scalar (read : Value → Checked α) (write : α → Except PlainFault Json)
    (normal : Json → Json) : Format α where
  read := read
  write := write
  ordered := id
  settled := id
  WellFormed := fun _ => True
  Finite := fun _ => True
  normal := normal
  depth := 0

/-- A format of values without parts is lawful when it reads back what it writes. -/
theorem Lawful.of_scalar {read : Value → Checked α} {write : α → Except PlainFault Json}
    {normal : Json → Json}
    (hlist : ∀ items items', read (.list items) = read (.list items'))
    (hobject : ∀ ms ns, read (.object ms) = read (.object ns))
    (hscalar : ∀ {u a}, read (.ofJson u) = .ok a → u.isScalar = true ∧ u.Finite)
    (hback : ∀ {a j}, write a = .ok j → j.isScalar = true ∧ j.Settled ∧ read (.ofJson j) = .ok a)
    (hwritten : ∀ {u a j}, read (.ofJson u) = .ok a → write a = .ok j → j = (normal u).written) :
    (scalar read write normal).Lawful where
  wellFormed _ _ := trivial
  orderless := by
    intro u v _ huv
    have hread : read (.ofJson u) = read (.ofJson v) := by
      rcases Json.sorted_eq_cases huv with
        ⟨-, rfl⟩ | ⟨items, items', rfl, rfl, -⟩ | ⟨ms, ns, rfl, rfl, -⟩
      · rfl
      · rw [Value.ofJson_list, Value.ofJson_list]
        apply hlist
      · rw [Value.ofJson_object, Value.ofJson_object]
        apply hobject
    show LiftRel _ _ (read (.ofJson u)) (read (.ofJson v))
    rw [hread]
    exact Except.map_eq_map_iff.mp rfl
  alike := by
    intro encodable u v a b huv ha hb
    rw [Json.eq_of_sorted_scalar (hscalar ha).1 huv.sorted] at hb
    cases ha.symm.trans hb
    exact .refl _ _ _
  comesBack _ h := by
    obtain ⟨hs, hsettled, hread⟩ := hback h
    exact ⟨hsettled, Json.within_scalar hs 0, hread, h⟩
  written _ h hj := congrArg Json.sorted (hwritten h hj)
  kept _ _ _ _ _ := rfl
  finite h _ _ := (hscalar h).2
  sameNames _ hv _ _ _ _ := (Json.everywhere_scalar (hscalar hv).1).mpr trivial

/-- Texts. -/
def text : Format Text :=
  scalar Check.text (fun t => .ok (.text t)) id

/-- Texts keep the laws: they are read and written as they are. -/
theorem lawful_text : text.Lawful := by
  apply Lawful.of_scalar (fun _ _ => rfl) (fun _ _ => rfl)
  · intro u t h
    rw [Check.text_eq_ok_iff.mp h]
    exact ⟨rfl, trivial⟩
  · intro t j h
    cases h
    exact ⟨rfl, Json.settled_text t, Check.text_eq_ok_iff.mpr rfl⟩
  · intro u t j h hj
    cases hj
    rw [Check.text_eq_ok_iff.mp h]
    rfl

/-- Texts that may be null. -/
def optionalText : Format (Option Text) :=
  scalar (Check.optional Check.text) (fun o => .ok (plainOptional o)) id

/-- So do texts that may be null. -/
theorem lawful_optionalText : optionalText.Lawful := by
  apply Lawful.of_scalar (fun _ _ => rfl) (fun _ _ => rfl)
  · intro u o h
    -- null or a text
    rcases Check.optional_eq_ok_iff.mp h with ⟨rfl, -⟩ | ⟨-, t, ht, -⟩
    · exact ⟨rfl, trivial⟩
    · rw [Check.text_eq_ok_iff.mp ht]
      exact ⟨rfl, trivial⟩
  · intro o j h
    cases h
    -- null is written for no text, and is read as none
    cases o with
    | none => exact ⟨rfl, ⟨trivial, trivial, trivial, trivial⟩, rfl⟩
    | some t => exact ⟨rfl, Json.settled_text t, rfl⟩
  · intro u o j h hj
    cases hj
    rcases Check.optional_eq_ok_iff.mp h with ⟨rfl, rfl⟩ | ⟨-, t, ht, rfl⟩
    · rfl
    · rw [Check.text_eq_ok_iff.mp ht]
      rfl

/-- The integer that the number of an error is read as; null stays null. -/
def integerForm (v : Json) : Json :=
  match Check.optional Check.integer (.ofJson v) with
  | .ok (some n) => .int n
  | _ => v

/-- Numbers of errors. -/
def code : Format (Option Int) :=
  scalar (Check.optional Check.integer) plainCode integerForm

/-- A code comes back as the integer that it was read as. -/
theorem lawful_code : code.Lawful := by
  apply Lawful.of_scalar (fun _ _ => rfl) (fun _ _ => rfl)
  · intro u o h
    rcases Check.optional_eq_ok_iff.mp h with ⟨rfl, -⟩ | ⟨-, n, hn, -⟩
    · exact ⟨rfl, trivial⟩
    · -- of numbers, only finite ones are converted
      cases u with
      | list items => simp [Check.integer, Checked.fail] at hn
      | object ms => simp [Check.integer, Checked.fail] at hn
      | float x =>
        refine ⟨rfl, ?_⟩
        by_contra hx
        simp [Value.ofJson, Check.integer, Check.integerOfFloat, Checked.fail,
          show x.isFinite = false from Bool.eq_false_iff.mpr hx] at hn
      | _ => exact ⟨rfl, trivial⟩
  · intro o j h
    cases o with
    | none => cases h; exact ⟨rfl, ⟨trivial, trivial, trivial, trivial⟩, rfl⟩
    | some n =>
      -- an integer is written unless it has too many digits
      obtain ⟨hs, hsettled, -⟩ := Scalar.plain_spec (s := .int n) h
      simp only [plainCode, Scalar.plain] at h
      split at h <;> cases h
      exact ⟨hs, hsettled, rfl⟩
  · intro u o j h hj
    rw [integerForm, h]
    cases o with
    | none =>
      cases hj
      rcases Check.optional_eq_ok_iff.mp h with ⟨rfl, -⟩ | ⟨-, n, -, hn⟩
      · rfl
      · cases hn
    | some n =>
      simp only [plainCode, Scalar.plain] at hj
      split at hj <;> cases hj
      rfl

/-! ## Mappings -/

/-- The forms of members, under new names. -/
def plainNamed (f : Text → Text) (xs : List (Text × Value)) :
    Except PlainFault (List (Text × Json)) :=
  xs.mapM fun x => return (f x.1, ← x.2.plain)

/-- Members of a document are written if their values are, under new names. -/
theorem plainNamed_ofJson_iff (f : Text → Text) {ms ps : List (Text × Json)} :
    plainNamed f (mapValues Value.ofJson ms) = .ok ps ↔
      (∀ m ∈ ms, Value.Plainable maxPlainDepth m.2) ∧ ms.map (fun m => (f m.1, m.2.written)) = ps := by
  rw [plainNamed, Except.mapM_eq_ok_iff, mapValues, List.forall₂_map_left_iff]
  simp only [Except.bind_pure_eq_ok_iff, Value.plain_ofJson_iff]
  -- on the members: the first one without a written form leaves the rest out
  induction ms generalizing ps with
  | nil => simp [eq_comm]
  | cons m ms ih =>
    rw [List.forall₂_cons_left_iff, List.forall_mem_cons, List.map_cons]
    simp only [ih]
    constructor
    · rintro ⟨p, ps, ⟨_, ⟨hm, rfl⟩, rfl⟩, ⟨hms, rfl⟩, rfl⟩
      exact ⟨⟨hm, hms⟩, rfl⟩
    · rintro ⟨⟨hm, hms⟩, rfl⟩
      exact ⟨_, _, ⟨_, ⟨hm, rfl⟩, rfl⟩, ⟨hms, rfl⟩, rfl⟩

/-- Members have no forms because one of them has none. -/
theorem exists_of_plainNamed_eq_error {f : Text → Text} {ms : List (Text × Json)}
    (hms : ∀ m ∈ ms, m.2.Moderate) {e : PlainFault}
    (h : plainNamed f (mapValues Value.ofJson ms) = .error e) :
    ∃ m ∈ ms, Value.DocumentFault m.2 e := by
  rw [plainNamed] at h
  obtain ⟨_, hmem, h⟩ := Except.exists_of_mapM_eq_error h
  obtain ⟨m, hm, rfl⟩ := List.mem_map.mp hmem
  exact ⟨m, hm, Value.documentFault_of_plainWithin (hms m hm) (Except.bind_pure_eq_error_iff.mp h)⟩

/-- The forms of the members of a document do not depend on their order. -/
theorem plainNamed_congr {encodable : Prop} (f : Text → Text) {ms ns : List (Text × Json)}
    (hapart : ∀ m ∈ ms, m.2.NamesApart) (hnames : encodable → ∀ m ∈ ms, m.2.NamesEncodable)
    (hmoderate : ∀ m ∈ ms, m.2.Moderate)
    (hperm : (mapValues Json.sorted ms).Perm (mapValues Json.sorted ns)) :
    LiftRel (PlainFault.Kindred encodable)
      (fun ps qs => (mapValues Json.sorted ps).Perm (mapValues Json.sorted qs))
      (plainNamed f (mapValues Value.ofJson ms)) (plainNamed f (mapValues Value.ofJson ns)) := by
  have hpartner {P : Json → Prop} (hP : ∀ {v : Json}, P v.sorted ↔ P v) :
      (∀ m ∈ ms, P m.2) ↔ ∀ n ∈ ns, P n.2 := by
    have hiff (ks : List (Text × Json)) :
        (∀ k ∈ ks, P k.2) ↔ ∀ k ∈ mapValues Json.sorted ks, P k.2 := by
      rw [mapValues, List.forall_mem_map]
      exact forall₂_congr fun k _ => hP.symm
    rw [hiff ms, hiff ns]
    simp only [hperm.mem_iff]
  have hwritten {ks : List (Text × Json)} (hks : ∀ k ∈ ks, k.2.NamesApart) :
      mapValues Json.sorted (ks.map fun k => (f k.1, k.2.written)) =
        (mapValues Json.sorted ks).map fun k => (f k.1, k.2.written.sorted) := by
    rw [mapValues, mapValues, List.map_map, List.map_map]
    apply List.map_congr_left
    intro k hk
    exact Prod.ext rfl (Json.written_sorted_of_apart (hks k hk))
  cases hps : plainNamed f (mapValues Value.ofJson ms) with
  | ok ps =>
    obtain ⟨hplain, rfl⟩ := (plainNamed_ofJson_iff f).mp hps
    rw [(plainNamed_ofJson_iff f).mpr ⟨(hpartner Value.plainable_sorted).mp hplain, rfl⟩]
    apply LiftRel.ok
    rw [hwritten hapart, hwritten ((hpartner Json.namesApart_sorted).mp hapart)]
    exact hperm.map _
  | error e =>
    cases hqs : plainNamed f (mapValues Value.ofJson ns) with
    | ok qs =>
      obtain ⟨hplain, -⟩ := (plainNamed_ofJson_iff f).mp hqs
      have hps' := (plainNamed_ofJson_iff f).mpr ⟨(hpartner Value.plainable_sorted).mpr hplain, rfl⟩
      cases hps.symm.trans hps'
    | error e' =>
      -- of members and partners alike it is known what can be wrong with them
      obtain ⟨m, hm, hfault⟩ := exists_of_plainNamed_eq_error hmoderate hps
      obtain ⟨n, hn, hfault'⟩ :=
        exists_of_plainNamed_eq_error ((hpartner Json.moderate_sorted).mp hmoderate) hqs
      exact .error (hfault.kindred hfault' (fun he => hnames he m hm)
        fun he => (hpartner Json.namesEncodable_sorted).mp (hnames he) n hn)

/-- The forms of members are settled, and they are what comes back. -/
theorem plainNamed_spec {f : Text → Text} {xs : List (Text × Value)} {ps : List (Text × Json)}
    (h : plainNamed f xs = .ok ps) :
    (∀ p ∈ ps, Value.FormOf maxPlainDepth p.2) ∧ names ps = xs.map (fun x => f x.1) ∧
      mapValues Value.ofJson ps = xs.map fun x => (f x.1, x.2.settled) := by
  rw [plainNamed, Except.mapM_eq_ok_iff] at h
  simp only [Except.bind_pure_eq_ok_iff] at h
  -- along the members and what is written for them
  induction h with
  | nil => simp
  | cons hhead _ ih =>
    obtain ⟨j, hj, rfl⟩ := hhead
    obtain ⟨hforms, hnames, hvalues⟩ := ih
    refine ⟨List.forall_mem_cons.mpr ⟨Value.formOf_plainWithin hj, hforms⟩, ?_, ?_⟩
    · rw [Json.names_cons, hnames, List.map_cons]
    · rw [Json.mapValues_cons, hvalues, List.map_cons, Value.settled_eq hj]

/-- Free mappings. -/
def mapping : Format (List (Text × Value)) where
  read := Check.dictionary
  write := plainAccount
  ordered := Value.orderedMembers
  settled := Value.settledMembers
  WellFormed := fun _ => True
  Finite := Value.FiniteMembers
  normal := id
  depth := maxPlainDepth + 1

/-- An account is written with its names made encodable, and without repeating one. -/
theorem plainAccount_eq (xs : List (Text × Value)) :
    plainAccount xs = (plainNamed Text.asName xs).map fun ps => .object (Json.ofPairs ps) := by
  have hbinds : plainAccount xs = ((plainNamed Text.asName xs >>= fun ps => pure (Json.ofPairs ps)) >>=
    fun ms => pure (.object ms)) := rfl
  rw [hbinds]
  cases plainNamed Text.asName xs <;> rfl

theorem plainAccount_eq_ok_iff {xs : List (Text × Value)} {j : Json} :
    plainAccount xs = .ok j ↔
      ∃ ps, plainNamed Text.asName xs = .ok ps ∧ .object (Json.ofPairs ps) = j := by
  rw [plainAccount_eq, Except.map_eq_ok_iff]

/-- A mapping of a document is written when each of its values can be, as any value is. -/
theorem plainAccount_ofJson_iff {ms : List (Text × Json)} {j : Json} :
    plainAccount (mapValues Value.ofJson ms) = .ok j ↔
      (∀ m ∈ ms, Value.Plainable maxPlainDepth m.2) ∧ (Json.object ms).written = j := by
  -- the names of an account are replaced once they are written, as those of any mapping in the text are
  have hwritten : (Json.object ms).written =
      .object (Json.ofPairs (ms.map fun m => (m.1.asName, m.2.written))) := by
    rw [Json.written_object, Json.renamedMembers, mapValues, List.map_map]
    rfl
  rw [plainAccount_eq_ok_iff, hwritten]
  simp only [plainNamed_ofJson_iff]
  constructor
  · rintro ⟨_, ⟨hms, rfl⟩, rfl⟩
    exact ⟨hms, rfl⟩
  · rintro ⟨hms, rfl⟩
    exact ⟨_, ⟨hms, rfl⟩, rfl⟩

/-- A mapping of a proper document has the members of the object. -/
theorem dictionary_proper {u : Json} (hu : u.Proper) {xs : List (Text × Value)} :
    Check.dictionary (.ofJson u) = .ok xs ↔ ∃ ms, u = .object ms ∧ mapValues Value.ofJson ms = xs := by
  rw [Check.dictionary_eq_ok_iff]
  refine exists_congr fun ms => and_congr_right fun hms => ?_
  subst hms
  rw [Json.ofPairs_eq_self (by simpa using (Json.everywhere_object.mp hu).1)]

/-- Two mappings are the same up to order exactly when the objects have the same sorted form. -/
theorem orderedMembers_eq_iff {ms ns : List (Text × Json)} :
    Value.orderedMembers (mapValues Value.ofJson ms) =
      Value.orderedMembers (mapValues Value.ofJson ns) ↔
        (Json.object ms).sorted = (Json.object ns).sorted := by
  have hinjective : Function.Injective (mapValues (β := Json) Value.ofJson) := by
    intro ps qs h
    refine Value.eq_of_map_eq (fun p _ q hpq => ?_) h
    exact Prod.ext (Prod.mk.inj hpq).1 (Value.ofJson_injective (Prod.mk.inj hpq).2)
  rw [Value.orderedMembers_ofJson, Value.orderedMembers_ofJson, hinjective.eq_iff,
    Json.sorted_object, Json.sorted_object, Json.object.injEq]

/-- Mappings keep the laws, whatever names they have. -/
theorem lawful_mapping : mapping.Lawful where
  wellFormed _ _ := trivial
  orderless := by
    intro u v hu huv
    rcases Json.sorted_eq_cases huv with
      ⟨-, rfl⟩ | ⟨items, items', rfl, rfl, -⟩ | ⟨ms, ns, rfl, rfl, -⟩
    · exact Except.map_eq_map_iff.mp rfl
    · rw [Value.ofJson_list, Value.ofJson_list]
      exact .error rfl
    · have hv : (Json.object ns).Proper := by
        rw [← Json.proper_sorted, ← huv, Json.proper_sorted]
        exact hu
      have hms := (dictionary_proper hu).mpr ⟨ms, rfl, rfl⟩
      have hns := (dictionary_proper hv).mpr ⟨ns, rfl, rfl⟩
      show LiftRel _ _ (Check.dictionary (.ofJson (.object ms))) (Check.dictionary (.ofJson (.object ns)))
      rw [hms, hns]
      exact .ok (orderedMembers_eq_iff.mpr huv)
  alike := by
    intro encodable u v a b huv ha hb
    obtain ⟨ms, rfl, rfl⟩ := (dictionary_proper huv.apart.proper).mp ha
    obtain ⟨ns, rfl, -⟩ := Json.eq_object_of_sorted huv.sorted
    have hv : (Json.object ns).NamesApart := by
      rw [← Json.namesApart_sorted, ← huv.sorted, Json.namesApart_sorted]
      exact huv.apart
    obtain ⟨_, hns, rfl⟩ := (dictionary_proper hv.proper).mp hb
    cases hns
    obtain ⟨hnames, hms⟩ := Json.everywhere_object.mp huv.apart
    have hforms := plainNamed_congr Text.asName hms
      (fun he => (Json.everywhere_object.mp (huv.namesEncodable he)).2)
      (Json.everywhere_object.mp huv.moderate).2 huv.perm
    show LiftRel _ _ (plainAccount _) (plainAccount _)
    rw [plainAccount_eq, plainAccount_eq]
    apply hforms.attach.map
    rintro ps qs ⟨hps, hqs, hpqs⟩
    -- names that fall together would make the order matter
    have hnodup : (names ps).Nodup := by
      rw [(plainNamed_spec hps).2.1, mapValues, List.map_map]
      rw [names, List.map_map] at hnames
      exact hnames
    have hnodup' := (Json.names_perm_of_sorted hpqs).nodup_iff.mp hnodup
    rw [Json.ofPairs_eq_self hnodup, Json.ofPairs_eq_self hnodup']
    exact Json.sorted_object_of_perm hnodup hpqs
  comesBack := by
    intro xs j _ h
    obtain ⟨ps, hps, rfl⟩ := plainAccount_eq_ok_iff.mp h
    obtain ⟨hforms, hnames, hvalues⟩ := plainNamed_spec hps
    have hform := Value.formOf_object (fun p hp => by
      have hmem := Json.mem_names_of_mem hp
      rw [hnames] at hmem
      obtain ⟨x, -, hx⟩ := List.mem_map.mp hmem
      rw [← hx]
      exact Text.encodable_asName x.1) hforms
    -- what is read back are the forms, with repeated names dropped as in writing
    have hsettled : Value.settledMembers xs = mapValues Value.ofJson (Json.ofPairs ps) := by
      rw [Value.settledMembers, ← hvalues, Json.ofPairs_mapValues]
    refine ⟨hform.settled, hform.within, ?_, ?_⟩
    · exact (dictionary_proper hform.settled.proper).mpr ⟨_, rfl, hsettled.symm⟩
    · show plainAccount (Value.settledMembers xs) = _
      rw [hsettled, plainAccount_ofJson_iff]
      exact ⟨fun p hp => ⟨p.2, (hforms p (Json.mem_of_mem_ofPairs hp)).again⟩,
        hform.settled.written_eq⟩
  written := by
    intro u a j hu h hj
    obtain ⟨ms, rfl, rfl⟩ := (dictionary_proper hu).mp h
    exact congrArg Json.sorted (plainAccount_ofJson_iff.mp hj).2.symm
  kept := by
    intro u a j hu hnames hfinite h hj
    obtain ⟨ms, rfl, rfl⟩ := (dictionary_proper hu).mp h
    obtain ⟨ps, hps, rfl⟩ := plainAccount_eq_ok_iff.mp hj
    have hwritten := (plainAccount_ofJson_iff.mp hj).2
    -- with encodable names and finite numbers nothing is replaced or dropped
    have hsame : (Json.object ms).written = .object ms := by
      rw [Json.written, Json.dropNonFinite_eq_self hfinite, Json.renamed_eq_self hu hnames]
    rw [hsame, Json.object.injEq] at hwritten
    show Value.settledMembers (mapValues Value.ofJson ms) = _
    rw [Value.settledMembers, ← (plainNamed_spec hps).2.2, Json.ofPairs_mapValues, ← hwritten]
  finite := by
    intro u a h ha hu
    obtain ⟨ms, rfl, rfl⟩ := (dictionary_proper hu).mp h
    exact Json.everywhere_object.mpr ⟨trivial, Value.finiteMembers_ofJson.mp ha⟩
  sameNames := by
    intro u v a b hu hv hab hup hvp hnames
    obtain ⟨ms, rfl, rfl⟩ := (dictionary_proper hup).mp hu
    obtain ⟨ns, rfl, rfl⟩ := (dictionary_proper hvp).mp hv
    rw [← Json.namesEncodable_sorted, ← orderedMembers_eq_iff.mp hab, Json.namesEncodable_sorted]
    exact hnames

end Format

/-- The type with new members. -/
def TypeRef.mapMembers (f : List (Text × Value) → List (Text × Value)) : TypeRef → TypeRef
  | .named n => .named n
  | .composite ms => .composite (f ms)

/-- Does the type hold finite numbers only? -/
def TypeRef.Finite : TypeRef → Prop
  | .named _ => True
  | .composite ms => Value.FiniteMembers ms

namespace Format

/-- Types of arguments. -/
def typeRef : Format TypeRef where
  read := TypeRef.check
  write := TypeRef.plain
  ordered := TypeRef.mapMembers Value.orderedMembers
  settled := TypeRef.mapMembers Value.settledMembers
  WellFormed := fun _ => True
  Finite := TypeRef.Finite
  normal := id
  depth := maxPlainDepth + 1

/-- A type is read as a text or as a mapping. -/
theorem typeRef_read_iff {u : Json} {t : TypeRef} :
    TypeRef.check (.ofJson u) = .ok t ↔
      (∃ n, u = .text n ∧ .named n = t) ∨
        ∃ xs, Check.dictionary (.ofJson u) = .ok xs ∧ .composite xs = t := by
  -- a text is no mapping and a mapping no text, and nothing else is a type
  cases u with
  | text n => simp [Value.ofJson, TypeRef.check, Check.text, Check.dictionary, Checked.fail]
  | object ms =>
    have htext : Check.text (.ofJson (.object ms)) = Checked.fail .textType := by
      rw [Value.ofJson_object]
      rfl
    obtain ⟨xs, hxs⟩ : ∃ xs, Check.dictionary (.ofJson (.object ms)) = .ok xs :=
      ⟨_, Check.dictionary_eq_ok_iff.mpr ⟨ms, rfl, rfl⟩⟩
    rw [TypeRef.check, htext, hxs]
    simp [Checked.fail, -Value.ofJson_object]
  | _ =>
    simp [Value.ofJson, TypeRef.check, Check.text, Check.dictionary, Checked.fail, Checked.under,
      Checked.both, Except.map]

/-- Of a description that is a free mapping of a document and has no form, it is known what is wrong with
it. -/
theorem documentFault_of_plain_composite {ms : List (Text × Json)} (hms : (Json.object ms).Moderate)
    {f : PlainFault} (h : (TypeRef.composite (mapValues Value.ofJson ms)).plain = .error f) :
    Value.DocumentFault (.object ms) f := by
  rw [TypeRef.plain] at h
  split at h
  · cases h
  · rw [TypeRef.toValue, ← Value.ofJson_object] at h
    exact Value.documentFault_of_plainWithin hms h

/-- Descriptions are written alike when they are as free mappings. -/
theorem alike_composite {encodable : Prop} {ms ns : List (Text × Json)}
    (huv : Json.Respelled encodable (.object ms) (.object ns))
    (h : mapping.Alike encodable (mapValues Value.ofJson ms) (mapValues Value.ofJson ns)) :
    typeRef.Alike encodable (.composite (mapValues Value.ofJson ms))
      (.composite (mapValues Value.ofJson ns)) := by
  have hmapping (ks : List (Text × Json)) (j : Json) :
      mapping.write (mapValues Value.ofJson ks) = .ok j ↔
        (TypeRef.composite (mapValues Value.ofJson ks)).plain = .ok j :=
    TypeRef.plain_composite_iff.symm
  rw [Alike] at h
  show LiftRel _ _ (TypeRef.composite (mapValues Value.ofJson ms)).plain
    (TypeRef.composite (mapValues Value.ofJson ns)).plain
  cases hms : mapping.write (mapValues Value.ofJson ms) with
  | ok j =>
    rw [hms] at h
    obtain ⟨j', hns, hsorted⟩ := h.exists_ok
    rw [(hmapping ms j).mp hms, (hmapping ns j').mp hns]
    exact .ok hsorted
  | error e =>
    -- the faults of free mappings are not those that are reported
    cases hplain : (TypeRef.composite (mapValues Value.ofJson ms)).plain with
    | ok j => cases hms.symm.trans ((hmapping ms j).mpr hplain)
    | error f =>
      cases hplain' : (TypeRef.composite (mapValues Value.ofJson ns)).plain with
      | ok j' =>
        rw [hms, (hmapping ns j').mpr hplain'] at h
        cases h
      | error f' =>
        exact .error ((documentFault_of_plain_composite huv.moderate hplain).kindred
          (documentFault_of_plain_composite huv.moderate_right hplain') huv.namesEncodable
          huv.names_right)

/-- Types keep them as texts, or as mappings. -/
theorem lawful_typeRef : typeRef.Lawful where
  -- a type is a text or a mapping, so that each law is that of one of the two
  wellFormed _ _ := trivial
  orderless := by
    intro u v hu huv
    rcases Json.sorted_eq_cases huv with
      ⟨-, rfl⟩ | ⟨items, items', rfl, rfl, -⟩ | ⟨ms, ns, rfl, rfl, -⟩
    · exact Except.map_eq_map_iff.mp rfl
    · rw [Value.ofJson_list, Value.ofJson_list]
      exact .error rfl
    · -- a mapping is not a text, and any mapping will do
      have hread {w : Json} {xs : List (Text × Value)} (h : Check.dictionary (.ofJson w) = .ok xs) :
          TypeRef.check (.ofJson w) = .ok (.composite xs) := typeRef_read_iff.mpr (.inr ⟨xs, h, rfl⟩)
      have hms := Check.dictionary_eq_ok_iff.mpr ⟨ms, rfl, rfl⟩
      have hns := Check.dictionary_eq_ok_iff.mpr ⟨ns, rfl, rfl⟩
      have hmapping : LiftRel _ _ (Check.dictionary (.ofJson (.object ms)))
        (Check.dictionary (.ofJson (.object ns))) := lawful_mapping.orderless hu huv
      show LiftRel _ _ (TypeRef.check (.ofJson (.object ms))) (TypeRef.check (.ofJson (.object ns)))
      rw [hms, hns] at hmapping
      rw [hread hms, hread hns]
      cases hmapping with
      | ok h => exact .ok (congrArg TypeRef.composite h)
  alike := by
    intro encodable u v t t' huv ht ht'
    rcases typeRef_read_iff.mp ht with ⟨n, rfl, rfl⟩ | ⟨xs, hxs, rfl⟩
    · rw [Json.eq_of_sorted_scalar rfl huv.sorted] at ht'
      cases ht.symm.trans ht'
      exact .refl _ _ _
    · obtain ⟨ms, rfl, rfl⟩ := (dictionary_proper huv.apart.proper).mp hxs
      obtain ⟨ns, rfl, -⟩ := Json.eq_object_of_sorted huv.sorted
      have hns : (Json.object ns).Proper := by
        rw [← Json.proper_sorted, ← huv.sorted, Json.proper_sorted]
        exact huv.apart.proper
      obtain ⟨n, hn, -⟩ | ⟨ys, hys, rfl⟩ := (@typeRef_read_iff (.object ns) t').mp ht'
      · cases hn
      · obtain ⟨_, h, rfl⟩ := (dictionary_proper hns).mp hys
        cases h
        exact alike_composite huv (lawful_mapping.alike huv hxs hys)
  comesBack := by
    intro t j _ h
    cases t with
    | named n =>
      cases h
      exact ⟨Json.settled_text n, Json.within_scalar rfl _, rfl, rfl⟩
    | composite xs =>
      obtain ⟨hsettled, hwithin, hread, hwrite⟩ :=
        lawful_mapping.comesBack trivial (TypeRef.plain_composite_iff.mp h)
      exact ⟨hsettled, hwithin, typeRef_read_iff.mpr (.inr ⟨_, hread, rfl⟩),
        TypeRef.plain_composite_iff.mpr hwrite⟩
  written := by
    intro u t j hu h hj
    rcases typeRef_read_iff.mp h with ⟨n, rfl, rfl⟩ | ⟨xs, hxs, rfl⟩
    · cases hj
      rfl
    · exact lawful_mapping.written hu hxs (TypeRef.plain_composite_iff.mp hj)
  kept := by
    intro u t j hu hnames hfinite h hj
    rcases typeRef_read_iff.mp h with ⟨n, rfl, rfl⟩ | ⟨xs, hxs, rfl⟩
    · rfl
    · exact congrArg TypeRef.composite
        (lawful_mapping.kept hu hnames hfinite hxs (TypeRef.plain_composite_iff.mp hj))
  finite := by
    intro u t h ht hu
    rcases typeRef_read_iff.mp h with ⟨n, rfl, rfl⟩ | ⟨xs, hxs, rfl⟩
    · trivial
    · exact lawful_mapping.finite hxs ht hu
  sameNames := by
    intro u v a b hu hv hab hup hvp hnames
    rcases typeRef_read_iff.mp hv with ⟨n, rfl, rfl⟩ | ⟨ys, hys, rfl⟩
    · trivial
    · rcases typeRef_read_iff.mp hu with ⟨n, rfl, rfl⟩ | ⟨xs, hxs, rfl⟩
      · cases hab
      · exact lawful_mapping.sameNames hxs hys (TypeRef.composite.inj hab) hup hvp hnames

/-! ## Lists -/

/-- Lists of values of a format. -/
def list {α : Type} (F : Format α) : Format (List α) where
  read := Check.list F.read
  write := plainList F.write
  ordered := List.map F.ordered
  settled := List.map F.settled
  WellFormed := fun as => ∀ a ∈ as, F.WellFormed a
  Finite := fun as => ∀ a ∈ as, F.Finite a
  normal := Json.mapItems F.normal
  depth := F.depth + 1

/-- A list is written when its items are. -/
theorem plainList_eq_ok_iff {α : Type} {form : α → Except PlainFault Json} {as : List α}
    {j : Json} :
    plainList form as = .ok j ↔
      ∃ js, List.Forall₂ (fun a i => form a = .ok i) as js ∧ .list js = j := by
  rw [plainList, Except.bind_pure_eq_ok_iff]
  simp only [Except.mapM_eq_ok_iff]

section

variable {α : Type} {F : Format α} {encodable : Prop}

/-- What is read from lists in two spellings is related item by item, if that holds of the items. -/
theorem related_list {R : α → α → Prop}
    (hR : ∀ {u v a b}, Json.Respelled encodable u v → F.read (.ofJson u) = .ok a →
      F.read (.ofJson v) = .ok b → R a b)
    {u v : Json} {as bs : List α} (huv : Json.Respelled encodable u v) (ha : (list F).read (.ofJson u) = .ok as)
    (hb : (list F).read (.ofJson v) = .ok bs) : List.Forall₂ R as bs := by
  obtain ⟨us, rfl, hus⟩ := Check.list_eq_ok_iff.mp ha
  obtain ⟨vs, rfl, hvs⟩ := Check.list_eq_ok_iff.mp hb
  have huvs := huv.items
  clear huv ha hb
  induction huvs generalizing as bs with
  | nil =>
    cases hus
    cases hvs
    exact .nil
  | cons huv _ ih =>
    -- lists keep their order, so each item has its partner at the same place
    cases hus with
    | cons hu hus =>
      cases hvs with
      | cons hv hvs => exact .cons (hR huv hu hv) (ih hus hvs)

/-- Lists of values that are written alike, one by one, are written alike. -/
theorem alike_list {as bs : List α} (h : List.Forall₂ (F.Alike encodable) as bs) :
    (list F).Alike encodable as bs := by
  apply (LiftRel.mapM h).bind
  intro is js hijs
  apply LiftRel.ok
  rw [Json.sorted_list, Json.sorted_list, List.map_eq_map_iff_forall₂.mpr hijs]

/-- Items come back one by one. -/
theorem comesBack_items (hF : F.Lawful) {as : List α} {js : List Json}
    (h : List.Forall₂ (fun a j => F.write a = .ok j) as js) (has : ∀ a ∈ as, F.WellFormed a) :
    (∀ j ∈ js, j.Settled) ∧ (∀ j ∈ js, j.Within F.depth) ∧
      List.Forall₂ (fun j b => F.read (.ofJson j) = .ok b) js (as.map F.settled) ∧
      List.Forall₂ (fun b j => F.write b = .ok j) (as.map F.settled) js := by
  induction h with
  | nil => exact ⟨by simp, by simp, .nil, .nil⟩
  | cons hj _ ih =>
    obtain ⟨ha, has⟩ := List.forall_mem_cons.mp has
    obtain ⟨hsettled, hwithin, hread, hwrite⟩ := hF.comesBack ha hj
    obtain ⟨hsettleds, hwithins, hreads, hwrites⟩ := ih has
    exact ⟨List.forall_mem_cons.mpr ⟨hsettled, hsettleds⟩,
      List.forall_mem_cons.mpr ⟨hwithin, hwithins⟩, .cons hread hreads, .cons hwrite hwrites⟩

/-- They are written one by one. -/
theorem written_items (hF : F.Lawful) {us js : List Json} {as : List α}
    (h : List.Forall₂ (fun u a => F.read (.ofJson u) = .ok a) us as) (hus : ∀ u ∈ us, u.Proper)
    (hjs : List.Forall₂ (fun a j => F.write a = .ok j) as js) :
    js.map Json.sorted = us.map fun u => (F.normal u).written.sorted := by
  induction h generalizing js with
  | nil => cases hjs; rfl
  | cons hu _ ih =>
    obtain ⟨huProper, hus⟩ := List.forall_mem_cons.mp hus
    cases hjs with
    | cons hj hjs => rw [List.map_cons, List.map_cons, hF.written huProper hu hj, ih hus hjs]

/-- What is kept of each item is kept of all. -/
theorem kept_items (hF : F.Lawful) {us js : List Json} {as : List α}
    (h : List.Forall₂ (fun u a => F.read (.ofJson u) = .ok a) us as) (hus : ∀ u ∈ us, u.Proper)
    (hnames : ∀ u ∈ us, u.NamesEncodable) (hfinite : ∀ u ∈ us, u.Finite)
    (hjs : List.Forall₂ (fun a j => F.write a = .ok j) as js) : as.map F.settled = as := by
  -- on the items as they are read; those that are written go along
  induction h generalizing js with
  | nil => rfl
  | cons hu _ ih =>
    obtain ⟨huProper, hus⟩ := List.forall_mem_cons.mp hus
    obtain ⟨hname, hnames⟩ := List.forall_mem_cons.mp hnames
    obtain ⟨hfin, hfinite⟩ := List.forall_mem_cons.mp hfinite
    cases hjs with
    | cons hj hjs =>
      rw [List.map_cons, hF.kept huProper hname hfin hu hj, ih hus hnames hfinite hjs]

/-- Items of finite numbers come from documents of finite numbers. -/
theorem finite_items (hF : F.Lawful) {us : List Json} {as : List α}
    (h : List.Forall₂ (fun u a => F.read (.ofJson u) = .ok a) us as) (has : ∀ a ∈ as, F.Finite a)
    (hus : ∀ u ∈ us, u.Proper) : ∀ u ∈ us, u.Finite := by
  induction h with
  | nil => simp
  | cons hu _ ih =>
    obtain ⟨ha, has⟩ := List.forall_mem_cons.mp has
    obtain ⟨huProper, hus⟩ := List.forall_mem_cons.mp hus
    exact List.forall_mem_cons.mpr ⟨hF.finite hu ha huProper, ih has hus⟩

/-- Lists that are the same up to order have encodable names in both documents or in neither. -/
theorem sameNames_items (hF : F.Lawful) {us vs : List Json} {as bs : List α}
    (hus : List.Forall₂ (fun u a => F.read (.ofJson u) = .ok a) us as)
    (hvs : List.Forall₂ (fun v b => F.read (.ofJson v) = .ok b) vs bs)
    (hab : as.map F.ordered = bs.map F.ordered) (hup : ∀ u ∈ us, u.Proper)
    (hvp : ∀ v ∈ vs, v.Proper) (hnames : ∀ u ∈ us, u.NamesEncodable) :
    ∀ v ∈ vs, v.NamesEncodable := by
  -- on the first list; the second is as long, since the two have the same order
  induction hus generalizing vs bs with
  | nil =>
    cases hvs with
    | nil => simp
    | cons _ _ => cases hab
  | cons hu _ ih =>
    cases hvs with
    | nil => cases hab
    | cons hv hvs =>
      obtain ⟨hab, habs⟩ := List.cons.inj hab
      obtain ⟨hup, hups⟩ := List.forall_mem_cons.mp hup
      obtain ⟨hvp, hvps⟩ := List.forall_mem_cons.mp hvp
      obtain ⟨hname, hnames⟩ := List.forall_mem_cons.mp hnames
      exact List.forall_mem_cons.mpr
        ⟨hF.sameNames hu hv hab hup hvp hname, ih hvs habs hups hvps hnames⟩

/-- **Lists of a lawful format are lawful.** -/
theorem Lawful.list (hF : F.Lawful) : (list F).Lawful where
  wellFormed := by
    intro u as hu h a ha
    obtain ⟨items, rfl, hitems⟩ := Check.list_eq_ok_iff.mp h
    obtain ⟨v, hv, hread⟩ := hitems.exists_of_mem_right ha
    exact hF.wellFormed (Json.everywhere_list.mp hu v hv) hread
  orderless := by
    intro u v hu huv
    rcases Json.sorted_eq_cases huv with
      ⟨-, rfl⟩ | ⟨us, vs, rfl, rfl, husvs⟩ | ⟨ms, ns, rfl, rfl, -⟩
    · exact Except.map_eq_map_iff.mp rfl
    -- sorting keeps the items in their order, so that they can be compared one by one
    · rw [Value.ofJson_list, Value.ofJson_list]
      have hitems : List.Forall₂ (fun x y => LiftRel Eq (fun a b => F.ordered a = F.ordered b)
          (F.read x) (F.read y)) (us.map Value.ofJson) (vs.map Value.ofJson) := by
        rw [List.forall₂_map_left_iff, List.forall₂_map_right_iff]
        refine (Json.forall₂_of_map_sorted husvs (Json.everywhere_list.mp hu)).imp ?_
        intro u v huv
        exact hF.orderless huv.1 huv.2
      exact (Checked.liftRel_each hitems).mono fun as bs hab => List.map_eq_map_iff_forall₂.mpr hab
    · rw [Value.ofJson_object, Value.ofJson_object]
      exact .error rfl
  alike := by
    intro encodable u v as bs huv ha hb
    exact alike_list (related_list hF.alike huv ha hb)
  comesBack := by
    intro as j has h
    obtain ⟨js, hjs, rfl⟩ := plainList_eq_ok_iff.mp h
    obtain ⟨hsettled, hwithin, hread, hwrite⟩ := comesBack_items hF hjs has
    exact ⟨Json.settled_list.mpr hsettled, hwithin, Check.list_eq_ok_iff.mpr ⟨js, rfl, hread⟩,
      plainList_eq_ok_iff.mpr ⟨js, hwrite, rfl⟩⟩
  written := by
    intro u as j hu h hj
    obtain ⟨us, rfl, hus⟩ := Check.list_eq_ok_iff.mp h
    obtain ⟨js, hjs, rfl⟩ := plainList_eq_ok_iff.mp hj
    show _ = (Json.mapItems F.normal (.list us)).written.sorted
    rw [Json.mapItems, Json.written_list, Json.sorted_list, Json.sorted_list, List.map_map,
      List.map_map, written_items hF hus (Json.everywhere_list.mp hu) hjs]
    rfl
  kept := by
    intro u as j hu hnames hfinite h hj
    obtain ⟨us, rfl, hus⟩ := Check.list_eq_ok_iff.mp h
    obtain ⟨js, hjs, rfl⟩ := plainList_eq_ok_iff.mp hj
    exact kept_items hF hus (Json.everywhere_list.mp hu) (Json.everywhere_list.mp hnames)
      (Json.everywhere_list.mp hfinite) hjs
  finite := by
    intro u as h has hu
    obtain ⟨us, rfl, hus⟩ := Check.list_eq_ok_iff.mp h
    exact Json.everywhere_list.mpr (finite_items hF hus has (Json.everywhere_list.mp hu))
  sameNames := by
    intro u v as bs hu hv hab hup hvp hnames
    obtain ⟨us, rfl, hus⟩ := Check.list_eq_ok_iff.mp hu
    obtain ⟨vs, rfl, hvs⟩ := Check.list_eq_ok_iff.mp hv
    exact Json.everywhere_list.mpr (sameNames_items hF hus hvs hab (Json.everywhere_list.mp hup)
      (Json.everywhere_list.mp hvp) (Json.everywhere_list.mp hnames))

end

end Format

end SchemaGraft
