import SchemaGraft.Proofs.Schema.Format

/-!
# Members of Records

A record is read member by member.  A part of a record owns the members of some names, and its laws say of
these members what the laws of a format say of a whole value.

## Architecture

- **Parts**: `Part` with `Part.Lawful`.
- **Single members**: `Part.possible` for a member that may be left out; `Part.required` is the case in
  which it is there.
- **Other members**: `Part.extras`.
-/

namespace SchemaGraft

open Except (LiftRel)
open Json (names mapValues byName lookup)

/-! ## Parts -/

/-- How some members of a record are read and written. -/
structure Part (α : Type) where
  /-- The names of the members. -/
  owns : Text → Bool
  /-- The check that reads them. -/
  read : List (Scalar × Value) → Checked α
  /-- What they are written as. -/
  write : α → Except PlainFault (List (Text × Json))
  /-- The value with all its mappings in order. -/
  ordered : α → α
  /-- The value that comes back when it has been written. -/
  settled : α → α
  /-- What a value must be like to come back. -/
  WellFormed : α → Prop
  /-- Does the value hold finite numbers only? -/
  Finite : α → Prop
  /-- A member with the conversions that the check makes. -/
  normal : Text × Json → Json
  /-- The greatest depth of what is written for a member. -/
  depth : ℕ

namespace Part

variable {α β : Type}

/-- Reads the members of an object of a document. -/
def readJson (P : Part α) (ms : List (Text × Json)) : Checked α :=
  P.read (TypeRef.entries (mapValues Value.ofJson ms))

/-- The members that a part owns. -/
def own (P : Part α) (ms : List (Text × Json)) : List (Text × Json) :=
  ms.filter fun m => P.owns m.1

/-- Members of an object that can be read as a record. -/
structure Readable (ms : List (Text × Json)) : Prop where
  /-- No object repeats a name. -/
  proper : (Json.object ms).Proper
  /-- The names of the members can be encoded. -/
  names : ∀ n ∈ names ms, n.Encodable

/-- Readable members do not repeat a name. -/
theorem Readable.nodup {ms : List (Text × Json)} (h : Readable ms) : (Json.names ms).Nodup :=
  (Json.everywhere_object.mp h.proper).1

theorem Readable.value {ms : List (Text × Json)} (h : Readable ms) {m : Text × Json}
    (hm : m ∈ ms) : m.2.Proper :=
  (Json.everywhere_object.mp h.proper).2 m hm

/-- A member has a partner in a document with the members in another order. -/
theorem Readable.lookup_rel {ms ns : List (Text × Json)} (hms : Readable ms)
    (hperm : (mapValues Json.sorted ms).Perm (mapValues Json.sorted ns)) (n : Text) :
    Option.Rel (fun u v => u.Proper ∧ u.sorted = v.sorted) (lookup n ms) (lookup n ns) :=
  Json.lookup_rel_of_sorted hms.nodup hperm n fun _ hu => Json.Everywhere.lookup hms.proper hu

/-- Values that a part writes alike: as the same members up to order, or both not, with kindred faults. -/
def Alike (encodable : Prop) (P : Part α) (a b : α) : Prop :=
  LiftRel (PlainFault.Kindred encodable)
    (fun p q => (mapValues Json.sorted p).Perm (mapValues Json.sorted q)) (P.write a) (P.write b)

/-- Whatever is read of the members is alike to itself. -/
theorem Alike.refl (encodable : Prop) (P : Part α) (a : α) : P.Alike encodable a a := by
  rw [Alike]
  cases P.write a with
  | ok p => exact .ok (.refl _)
  | error f => exact .error (.inl rfl)

/-- The laws of a part. -/
structure Lawful (P : Part α) : Prop where
  /-- Only the members that the part owns are read. -/
  locality {ms ns : List (Text × Json)} (h : P.own ms = P.own ns) : P.readJson ms = P.readJson ns
  /-- What is read from a document is well formed. -/
  wellFormed {ms : List (Text × Json)} {a : α} (hms : Readable ms) (h : P.readJson ms = .ok a) :
    P.WellFormed a
  /-- Reading does not depend on the order of members, whether it succeeds or not. -/
  orderless {ms ns : List (Text × Json)} (hms : Readable ms)
    (hperm : (mapValues Json.sorted ms).Perm (mapValues Json.sorted ns)) :
    LiftRel Eq (fun a b => P.ordered a = P.ordered b) (P.readJson ms) (P.readJson ns)
  /-- Writing what was read does not depend on it either, if names stay apart. -/
  alike {encodable : Prop} {ms ns : List (Text × Json)} {a b : α}
    (h : Json.Respelled encodable (.object ms) (.object ns)) (ha : P.readJson ms = .ok a)
    (hb : P.readJson ns = .ok b) : P.Alike encodable a b
  /-- What is written is read back, as a value that is written in the same way. -/
  comesBack {a : α} {p : List (Text × Json)} (ha : P.WellFormed a) (h : P.write a = .ok p) :
    (∀ m ∈ p, P.owns m.1 = true ∧ m.1.Encodable ∧ m.2.Settled ∧ m.2.Within P.depth) ∧
      (names p).Nodup ∧ P.readJson p = .ok (P.settled a) ∧ P.write (P.settled a) = .ok p
  /-- What is written for a document is the document itself, up to order and conversions. -/
  written {ms p : List (Text × Json)} {a : α} (hms : Readable ms) (h : P.readJson ms = .ok a)
    (hp : P.write a = .ok p) :
    (mapValues Json.sorted p).Perm ((P.own ms).map fun m => (m.1, (P.normal m).written.sorted))
  /-- A value from a document that can be written in full comes back as it was. -/
  kept {ms p : List (Text × Json)} {a : α} (hms : Readable ms)
    (hnames : ∀ m ∈ ms, m.2.NamesEncodable) (hfinite : ∀ m ∈ ms, m.2.Finite)
    (h : P.readJson ms = .ok a) (hp : P.write a = .ok p) : P.settled a = a
  /-- A value of finite numbers comes from members of finite numbers. -/
  finite {ms : List (Text × Json)} {a : α} (h : P.readJson ms = .ok a) (ha : P.Finite a)
    (hms : Readable ms) : ∀ m ∈ P.own ms, m.2.Finite
  /-- Values that are equal up to order come from documents that both have encodable names. -/
  sameNames {ms ns : List (Text × Json)} {a b : α} (hms : P.readJson ms = .ok a)
    (hns : P.readJson ns = .ok b) (hab : P.ordered a = P.ordered b) (hmsp : Readable ms)
    (hnsp : Readable ns) (hnames : ∀ m ∈ P.own ms, m.2.NamesEncodable) :
    ∀ n ∈ P.own ns, n.2.NamesEncodable

theorem mem_own {P : Part α} {ms : List (Text × Json)} {m : Text × Json} :
    m ∈ P.own ms ↔ m ∈ ms ∧ P.owns m.1 = true := List.mem_filter

/-! ## Single Members -/

/-- A member that may be left out. -/
def possible (name : String) (F : Format α) : Part (Option α) where
  owns := fun n => n == Text.ofString name
  read := fun ms => Check.possible ms name F.read
  write := plainGiven name F.write
  ordered := Option.map F.ordered
  settled := Option.map F.settled
  WellFormed := fun o => ∀ a ∈ o, F.WellFormed a
  Finite := fun o => ∀ a ∈ o, F.Finite a
  normal := fun m => F.normal m.2
  depth := F.depth

section

variable {name : String} {F : Format α} {encodable : Prop}

/-- A part for one member owns this member, if it is there. -/
theorem own_possible {ms : List (Text × Json)} (hms : (names ms).Nodup) :
    (possible name F).own ms =
      ((lookup (Text.ofString name) ms).map (Text.ofString name, ·)).toList := by
  rw [← Json.filter_name_eq _ hms]
  exact List.filter_congr fun m _ => beq_eq_decide m.1 (Text.ofString name)

/-- It finds the member among its own. -/
theorem lookup_own_possible (ms : List (Text × Json)) :
    lookup (Text.ofString name) ((possible name F).own ms) = lookup (Text.ofString name) ms :=
  Json.lookup_filter (by simp [possible]) ms

/-- A possible member is not there, or is read. -/
theorem readJson_possible_iff {ms : List (Text × Json)} {o : Option α} :
    (possible name F).readJson ms = .ok o ↔
      lookup (Text.ofString name) ms = none ∧ o = none ∨
        ∃ u a, lookup (Text.ofString name) ms = some u ∧ F.read (.ofJson u) = .ok a ∧ o = some a := by
  refine Check.possible_eq_ok_iff.trans ?_
  cases lookup (Text.ofString name) ms <;> cases o <;> simp

theorem write_possible_none {p : List (Text × Json)} :
    (possible name F).write none = .ok p ↔ [] = p :=
  ⟨Except.ok.inj, congrArg Except.ok⟩

/-- What is given is written under the name. -/
theorem write_possible_some {a : α} {p : List (Text × Json)} :
    (possible name F).write (some a) = .ok p ↔
      ∃ j, F.write a = .ok j ∧ [(Text.ofString name, j)] = p :=
  Except.bind_pure_eq_ok_iff

/-- What is read from a member in two spellings is related, if that holds of its value. -/
theorem related_possible {R : α → α → Prop}
    (hR : ∀ {u v a b}, Json.Respelled encodable u v → F.read (.ofJson u) = .ok a →
      F.read (.ofJson v) = .ok b → R a b)
    {ms ns : List (Text × Json)} {o o' : Option α}
    (h : Json.Respelled encodable (.object ms) (.object ns))
    (ho : (possible name F).readJson ms = .ok o) (ho' : (possible name F).readJson ns = .ok o') :
    Option.Rel R o o' := by
  have hlookup := h.lookup (Text.ofString name)
  rcases readJson_possible_iff.mp ho with ⟨hu, rfl⟩ | ⟨u, a, hu, hread, rfl⟩ <;>
    rcases readJson_possible_iff.mp ho' with ⟨hv, rfl⟩ | ⟨v, b, hv, hread', rfl⟩ <;>
    rw [hu, hv] at hlookup <;> cases hlookup
  · exact .none
  · next huv => exact .some (hR huv hread hread')

/-- Members with values that are written alike are written alike. -/
theorem alike_possible {a b : α} (h : F.Alike encodable a b) :
    (Part.possible name F).Alike encodable (some a) (some b) := by
  apply LiftRel.bind h
  intro i j hij
  apply LiftRel.ok
  rw [declared, declared, Json.mapValues_cons, Json.mapValues_cons, hij]

/-- **A member of a lawful format is a lawful part.** -/
theorem lawful_possible (name : String) (hF : F.Lawful) : (possible name F).Lawful where
  -- all that is read of the members is found under the name
  locality := by
    intro ms ns h
    have hlookup : lookup (Text.ofString name) ms = lookup (Text.ofString name) ns := by
      rw [← lookup_own_possible (F := F) ms, h, lookup_own_possible]
    simp only [readJson, possible, Check.possible, Check.member?_entries, hlookup]
  wellFormed := by
    intro ms o hms h a ha
    rcases readJson_possible_iff.mp h with ⟨-, rfl⟩ | ⟨u, b, hu, hread, rfl⟩
    · cases ha
    · cases ha
      exact hF.wellFormed (Json.Everywhere.lookup hms.proper hu) hread
  orderless := by
    intro ms ns hms hperm
    show LiftRel _ _ (Check.possible _ name F.read) (Check.possible _ name F.read)
    rw [Check.possible, Check.possible, Check.member?_entries, Check.member?_entries]
    have hlookup := hms.lookup_rel hperm (Text.ofString name)
    generalize lookup (Text.ofString name) ms = o at hlookup ⊢
    generalize lookup (Text.ofString name) ns = o' at hlookup ⊢
    cases hlookup with
    | none => exact .ok rfl
    | some huv =>
      have hread := hF.orderless huv.1 huv.2
      exact (Checked.liftRel_under hread).map fun a b hab => congrArg some hab
  alike := by
    intro encodable ms ns o o' h ho ho'
    have hrel : Option.Rel (F.Alike encodable) o o' := related_possible hF.alike h ho ho'
    cases hrel with
    | none => exact .refl _ _ _
    | some hab => exact alike_possible hab
  comesBack := by
    intro o p ho h
    cases o with
    | none =>
      cases write_possible_none.mp h
      exact ⟨by simp, List.nodup_nil, readJson_possible_iff.mpr (.inl ⟨rfl, rfl⟩), rfl⟩
    | some a =>
      obtain ⟨j, hj, rfl⟩ := write_possible_some.mp h
      obtain ⟨hsettled, hwithin, hread, hwrite⟩ := hF.comesBack (ho a rfl) hj
      refine ⟨?_, List.nodup_singleton _, ?_, write_possible_some.mpr ⟨j, hwrite, rfl⟩⟩
      · rintro m hm
        cases List.mem_singleton.mp hm
        exact ⟨beq_self_eq_true _, Text.encodable_ofString name, hsettled, hwithin⟩
      · exact readJson_possible_iff.mpr (.inr ⟨j, _, if_pos rfl, hread, rfl⟩)
  written := by
    intro ms p o hms h hp
    rw [own_possible hms.nodup]
    rcases readJson_possible_iff.mp h with ⟨hu, rfl⟩ | ⟨u, a, hu, hread, rfl⟩
    · cases write_possible_none.mp hp
      rw [hu]
      exact .refl _
    · obtain ⟨j, hj, rfl⟩ := write_possible_some.mp hp
      rw [hu, Json.mapValues_cons, hF.written (Json.Everywhere.lookup hms.proper hu) hread hj]
      exact .refl _
  kept := by
    intro ms p o hms hnames hfinite h hp
    rcases readJson_possible_iff.mp h with ⟨hu, rfl⟩ | ⟨u, a, hu, hread, rfl⟩
    · rfl
    · obtain ⟨j, hj, rfl⟩ := write_possible_some.mp hp
      have hmem := Json.mem_of_lookup hu
      exact congrArg some (hF.kept (hms.value hmem) (hnames _ hmem) (hfinite _ hmem) hread hj)
  finite := by
    intro ms o h ho hms m hm
    rw [own_possible hms.nodup, Option.mem_toList, Option.map_eq_some_iff] at hm
    obtain ⟨v, hv, rfl⟩ := hm
    rcases readJson_possible_iff.mp h with ⟨hu, -⟩ | ⟨u, a, hu, hread, rfl⟩
    · rw [hv] at hu
      cases hu
    · cases hv.symm.trans hu
      exact hF.finite hread (ho a rfl) (hms.value (Json.mem_of_lookup hv))
  sameNames := by
    intro ms ns o o' hms hns hab hmsp hnsp hnames n hn
    rw [own_possible hnsp.nodup, Option.mem_toList, Option.map_eq_some_iff] at hn
    obtain ⟨v, hv, rfl⟩ := hn
    rcases readJson_possible_iff.mp hns with ⟨hv', -⟩ | ⟨v', b, hv', hb, rfl⟩
    · rw [hv] at hv'
      cases hv'
    · cases hv.symm.trans hv'
      rcases readJson_possible_iff.mp hms with ⟨-, rfl⟩ | ⟨u, a, hu, ha, rfl⟩
      · cases hab
      · exact hF.sameNames ha hb (Option.some.inj hab) (Json.Everywhere.lookup hmsp.proper hu)
          (hnsp.value (Json.mem_of_lookup hv))
          (hnames _ (mem_own.mpr ⟨Json.mem_of_lookup hu, beq_self_eq_true _⟩))

end

/-- A member that must be there. -/
def required (name : String) (F : Format α) : Part α where
  owns := fun n => n == Text.ofString name
  read := fun ms => Check.required ms name F.read
  write := fun a => plainGiven name F.write (some a)
  ordered := F.ordered
  settled := F.settled
  WellFormed := F.WellFormed
  Finite := F.Finite
  normal := fun m => F.normal m.2
  depth := F.depth

section

variable {name : String} {F : Format α}

/-- A required member is a possible one that is there. -/
theorem readJson_required_iff {ms : List (Text × Json)} {a : α} :
    (required name F).readJson ms = .ok a ↔ (possible name F).readJson ms = .ok (some a) := by
  rw [readJson_possible_iff]
  refine Check.required_eq_ok_iff.trans ?_
  simp

/-- A required text is the text under its name. -/
theorem readJson_text_iff {ms : List (Text × Json)} {t : Text} :
    (required name Format.text).readJson ms = .ok t ↔
      lookup (Text.ofString name) ms = some (.text t) := by
  rw [readJson_required_iff, readJson_possible_iff]
  simp only [reduceCtorEq, and_false, false_or, Option.some.injEq]
  constructor
  · rintro ⟨u, n, hu, hread, rfl⟩
    rw [hu, Check.text_eq_ok_iff.mp hread]
  · intro h
    exact ⟨.text t, t, h, Check.text_eq_ok_iff.mpr rfl, rfl⟩

/-- **A member that must be there is one that may be left out and is not.** -/
theorem lawful_required (name : String) (hF : F.Lawful) : (required name F).Lawful where
  locality := by
    intro ms ns h
    have hlookup : lookup (Text.ofString name) ms = lookup (Text.ofString name) ns := by
      rw [← lookup_own_possible (F := F) ms, ← lookup_own_possible (F := F) ns]
      exact congrArg _ h
    simp only [readJson, required, Check.required, Check.member?_entries, hlookup]
  -- the other laws are those of a possible member, which is there
  wellFormed hms h := (lawful_possible name hF).wellFormed hms (readJson_required_iff.mp h) _ rfl
  orderless := by
    intro ms ns hms hperm
    show LiftRel _ _ (Check.required _ name F.read) (Check.required _ name F.read)
    rw [Check.required, Check.required, Check.member?_entries, Check.member?_entries]
    apply Checked.liftRel_under
    have hlookup := hms.lookup_rel hperm (Text.ofString name)
    generalize lookup (Text.ofString name) ms = o at hlookup ⊢
    generalize lookup (Text.ofString name) ns = o' at hlookup ⊢
    cases hlookup with
    | none => exact .error rfl
    | some huv => exact hF.orderless huv.1 huv.2
  alike h ha hb := (lawful_possible name hF).alike h (readJson_required_iff.mp ha)
    (readJson_required_iff.mp hb)
  comesBack := by
    intro a p ha h
    obtain ⟨hmembers, hnodup, hread, hwrite⟩ :=
      (lawful_possible name hF).comesBack (fun _ hb => Option.some.inj hb ▸ ha) h
    exact ⟨hmembers, hnodup, readJson_required_iff.mpr hread, hwrite⟩
  written hms h hp := (lawful_possible name hF).written hms (readJson_required_iff.mp h) hp
  kept hms hnames hfinite h hp :=
    Option.some.inj ((lawful_possible name hF).kept hms hnames hfinite (readJson_required_iff.mp h) hp)
  finite h ha :=
    (lawful_possible name hF).finite (readJson_required_iff.mp h) fun _ hb => Option.some.inj hb ▸ ha
  sameNames hms hns hab :=
    (lawful_possible name hF).sameNames (readJson_required_iff.mp hms) (readJson_required_iff.mp hns)
      (congrArg some hab)

end

/-! ## Other Members -/

/-- The members beyond the declared ones. -/
def extras (declared : List String) : Part (List (Text × Value)) where
  owns := fun n => !Check.isDeclared declared n
  read := Check.extras declared
  write := plainExtras
  ordered := Value.orderedMembers
  settled := mapValues Value.settled
  WellFormed := fun xs =>
    (names xs).Nodup ∧ ∀ n ∈ names xs, Check.isDeclared declared n = false ∧ n.Encodable
  Finite := Value.FiniteMembers
  normal := fun m => m.2
  depth := maxPlainDepth

section

variable {declared : List String}

/-- The members beyond the declared ones are kept as they are. -/
theorem readJson_extras (ms : List (Text × Json)) :
    (extras declared).readJson ms = .ok (mapValues Value.ofJson ((extras declared).own ms)) :=
  (Check.extras_entries declared _).trans <|
    congrArg Except.ok (Json.filter_mapValues Value.ofJson (!Check.isDeclared declared ·) ms)

/-- Members beyond the declared ones are written if their values are. -/
theorem plainExtras_ofJson_iff {ms p : List (Text × Json)} :
    plainExtras (mapValues Value.ofJson ms) = .ok p ↔
      (∀ m ∈ ms, Value.Plainable maxPlainDepth m.2) ∧ mapValues Json.written ms = p :=
  Format.plainNamed_ofJson_iff id

/-- What a part owns does not depend on the order of members. -/
theorem own_perm {P : Part α} {ms ns : List (Text × Json)}
    (h : (mapValues Json.sorted ms).Perm (mapValues Json.sorted ns)) :
    (mapValues Json.sorted (P.own ms)).Perm (mapValues Json.sorted (P.own ns)) := by
  rw [own, own, ← Json.filter_mapValues, ← Json.filter_mapValues]
  exact h.filter _

/-- Of members that are the same up to order, each has a partner. -/
theorem exists_partner {ms ns : List (Text × Json)}
    (h : (mapValues Json.sorted ms).Perm (mapValues Json.sorted ns)) {n : Text × Json}
    (hn : n ∈ ns) : ∃ m ∈ ms, m.1 = n.1 ∧ m.2.sorted = n.2.sorted := by
  obtain ⟨m, hm, hmn⟩ := List.mem_map.mp (h.symm.subset (List.mem_map_of_mem hn))
  exact ⟨m, hm, (Prod.mk.inj hmn).1, (Prod.mk.inj hmn).2⟩

/-- Whether members can be read does not depend on their order. -/
theorem Readable.perm {ms ns : List (Text × Json)} (hms : Readable ms)
    (h : (mapValues Json.sorted ms).Perm (mapValues Json.sorted ns)) : Readable ns where
  proper := by
    rw [← Json.proper_sorted, ← Json.sorted_object_of_perm hms.nodup h, Json.proper_sorted]
    exact hms.proper
  names := fun n hn => hms.names n ((Json.names_perm_of_sorted h).symm.subset hn)

/-- A part of readable members is readable. -/
theorem Readable.own {ms : List (Text × Json)} (hms : Readable ms) (P : Part α) :
    Readable (P.own ms) where
  proper := Json.everywhere_object.mpr
    ⟨Json.nodup_names_filter _ hms.nodup, fun _ hm => hms.value (mem_own.mp hm).1⟩
  names := by
    intro n hn
    obtain ⟨m, hm, rfl⟩ := List.mem_map.mp hn
    exact hms.names _ (Json.mem_names_of_mem (mem_own.mp hm).1)

/-- **The members beyond the declared ones are a lawful part.** -/
theorem lawful_extras : (extras declared).Lawful where
  locality := by
    intro ms ns h
    rw [readJson_extras, readJson_extras, h]
  wellFormed := by
    intro ms xs hms h
    cases (readJson_extras ms).symm.trans h
    refine ⟨?_, fun n hn => ?_⟩
    · rw [Json.names_mapValues]
      exact (hms.own _).nodup
    · rw [Json.names_mapValues] at hn
      obtain ⟨m, hm, rfl⟩ := List.mem_map.mp hn
      obtain ⟨hm, howns⟩ := mem_own.mp hm
      exact ⟨by simpa [extras] using howns, hms.names _ (Json.mem_names_of_mem hm)⟩
  orderless := by
    intro ms ns hms hperm
    rw [readJson_extras, readJson_extras]
    apply LiftRel.ok
    apply Format.orderedMembers_eq_iff.mpr
    exact Json.sorted_object_of_perm (hms.own _).nodup (own_perm hperm)
  alike := by
    intro encodable ms ns xs ys h hxs hys
    cases (readJson_extras ms).symm.trans hxs
    cases (readJson_extras ns).symm.trans hys
    apply Format.plainNamed_congr id
    · exact fun m hm => (Json.everywhere_object.mp h.apart).2 m (mem_own.mp hm).1
    · exact fun he m hm => (Json.everywhere_object.mp (h.namesEncodable he)).2 m (mem_own.mp hm).1
    · exact fun m hm => (Json.everywhere_object.mp h.moderate).2 m (mem_own.mp hm).1
    · exact own_perm h.perm
  comesBack := by
    intro xs p hxs h
    obtain ⟨hforms, hnames, hvalues⟩ := Format.plainNamed_spec (f := id) h
    have hmember {m : Text × Json} (hm : m ∈ p) :
        Check.isDeclared declared m.1 = false ∧ m.1.Encodable := by
      apply hxs.2
      have hmem := Json.mem_names_of_mem hm
      rwa [hnames] at hmem
    have hsettled : mapValues Value.settled xs = mapValues Value.ofJson p := hvalues.symm
    refine ⟨fun m hm => ⟨?_, (hmember hm).2, (hforms m hm).settled, (hforms m hm).within⟩, ?_, ?_, ?_⟩
    · simp [extras, (hmember hm).1]
    · rw [hnames]
      exact hxs.1
    · -- what was written is all owned, as the names of `xs` are not declared
      have hown : (extras declared).own p = p :=
        List.filter_eq_self.mpr fun m hm => by simp [extras, (hmember hm).1]
      rw [readJson_extras, hown]
      exact congrArg Except.ok hsettled.symm
    · show plainExtras (mapValues Value.settled xs) = _
      rw [hsettled, plainExtras_ofJson_iff]
      refine ⟨fun m hm => ⟨m.2, (hforms m hm).again⟩, ?_⟩
      rw [Json.mapValues_congr (g := id) fun m hm => (hforms m hm).settled.written_eq,
        Json.mapValues_id]
  written := by
    intro ms p xs hms h hp
    cases (readJson_extras ms).symm.trans h
    obtain ⟨-, rfl⟩ := plainExtras_ofJson_iff.mp hp
    rw [Json.mapValues_mapValues]
    exact .refl _
  -- finite numbers and encodable names are written as they are
  kept := by
    intro ms p xs hms hnames hfinite h hp
    cases (readJson_extras ms).symm.trans h
    have hvalues := (Format.plainNamed_spec (f := id) hp).2.2
    obtain ⟨-, rfl⟩ := plainExtras_ofJson_iff.mp hp
    have hsame : mapValues Json.written ((extras declared).own ms) = (extras declared).own ms := by
      rw [Json.mapValues_congr (g := id), Json.mapValues_id]
      intro m hm
      have hm := (mem_own.mp hm).1
      rw [Json.written, Json.dropNonFinite_eq_self (hfinite m hm),
        Json.renamed_eq_self (hms.value hm) (hnames m hm), id]
    rw [hsame] at hvalues
    exact hvalues.symm
  finite := by
    intro ms xs h hxs _
    cases (readJson_extras ms).symm.trans h
    exact Value.finiteMembers_ofJson.mp hxs
  sameNames := by
    intro ms ns xs ys hxs hys hab hms hns hnames n hn
    cases (readJson_extras ms).symm.trans hxs
    cases (readJson_extras ns).symm.trans hys
    have hsorted := Format.orderedMembers_eq_iff.mp hab
    rw [Json.sorted_object, Json.sorted_object, Json.object.injEq] at hsorted
    obtain ⟨m, hm, -, hmn⟩ := exists_partner (Json.perm_of_byName_eq hsorted) hn
    rw [← Json.namesEncodable_sorted, ← hmn, Json.namesEncodable_sorted]
    exact hnames m hm

end

end Part

end SchemaGraft
