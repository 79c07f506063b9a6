import SchemaGraft.Proofs.Schema.Member

/-!
# Records as Formats

Parts that own different names are read side by side, and parts that own all names make a format of whole
records.

## Architecture

- **Pairs**: `Part.pair`; with it any number of parts are joined.
- **Records**: `Format.record` wraps the value of a part in a structure.
- **Restrictions**: `Format.restrict` for a check that turns some values away.
-/

namespace SchemaGraft

open Except (LiftRel)
open Json (names mapValues byName lookup)

/-! ## Pairs -/

namespace Part

variable {α β : Type}

/-- Two parts side by side. -/
def pair (A : Part α) (B : Part β) : Part (α × β) where
  owns := fun n => A.owns n || B.owns n
  read := fun ms => Checked.both (A.read ms) (B.read ms)
  write := fun r => do
    let a ← A.write r.1
    let b ← B.write r.2
    return a ++ b
  ordered := Prod.map A.ordered B.ordered
  settled := Prod.map A.settled B.settled
  WellFormed := fun r => A.WellFormed r.1 ∧ B.WellFormed r.2
  Finite := fun r => A.Finite r.1 ∧ B.Finite r.2
  normal := fun m => if A.owns m.1 then A.normal m else B.normal m
  depth := max A.depth B.depth

section

variable {A : Part α} {B : Part β}

theorem mem_own_pair {ms : List (Text × Json)} {m : Text × Json} :
    m ∈ (pair A B).own ms ↔ m ∈ A.own ms ∨ m ∈ B.own ms := by
  simp only [mem_own, pair, Bool.or_eq_true]
  exact and_or_left

theorem own_left_pair (ms : List (Text × Json)) : A.own ((pair A B).own ms) = A.own ms := by
  rw [own, own, List.filter_filter]
  refine List.filter_congr fun m _ => ?_
  cases h : A.owns m.1 <;> simp [pair, h]

theorem own_right_pair (ms : List (Text × Json)) : B.own ((pair A B).own ms) = B.own ms := by
  rw [own, own, List.filter_filter]
  refine List.filter_congr fun m _ => ?_
  cases h : B.owns m.1 <;> simp [pair, h]

/-- The members of a pair are those of the two parts. -/
theorem own_pair_perm (hdisjoint : ∀ n, A.owns n = true → B.owns n = false)
    (ms : List (Text × Json)) : ((pair A B).own ms).Perm (A.own ms ++ B.own ms) := by
  have hleft : ((pair A B).own ms).filter (fun m => A.owns m.1) = A.own ms := own_left_pair ms
  have hright : ((pair A B).own ms).filter (fun m => !A.owns m.1) = B.own ms := by
    rw [own, own, List.filter_filter]
    refine List.filter_congr fun m _ => ?_
    cases h : A.owns m.1 with
    | false => simp [pair, h]
    | true => simp [hdisjoint m.1 h]
  rw [← hleft, ← hright]
  exact (List.filter_append_perm _ _).symm

theorem readJson_pair_iff {ms : List (Text × Json)} {r : α × β} :
    (pair A B).readJson ms = .ok r ↔ A.readJson ms = .ok r.1 ∧ B.readJson ms = .ok r.2 :=
  Checked.both_eq_ok_iff

theorem write_pair_iff {r : α × β} {p : List (Text × Json)} :
    (pair A B).write r = .ok p ↔
      ∃ a b, A.write r.1 = .ok a ∧ B.write r.2 = .ok b ∧ a ++ b = p := by
  refine Except.bind_eq_ok_iff.trans ?_
  simp only [Except.bind_pure_eq_ok_iff]
  constructor
  · rintro ⟨a, ha, b, hb, rfl⟩
    exact ⟨a, b, ha, hb, rfl⟩
  · rintro ⟨a, b, ha, hb, rfl⟩
    exact ⟨a, ha, b, hb, rfl⟩

/-- What one part writes is of no concern to a part with other names. -/
theorem own_append_left {p q : List (Text × Json)} (hq : ∀ m ∈ q, A.owns m.1 = false) :
    A.own (p ++ q) = A.own p := by
  have hnil : A.own q = [] := List.filter_eq_nil_iff.mpr fun m hm => by simp [hq m hm]
  rw [own, List.filter_append, ← own, ← own, hnil, List.append_nil]

theorem own_append_right {p q : List (Text × Json)} (hp : ∀ m ∈ p, A.owns m.1 = false) :
    A.own (p ++ q) = A.own q := by
  have hnil : A.own p = [] := List.filter_eq_nil_iff.mpr fun m hm => by simp [hp m hm]
  rw [own, List.filter_append, ← own, ← own, hnil, List.nil_append]

/-- Parts with different names write no name twice, if each of them does not. -/
theorem nodup_names_append (hdisjoint : ∀ n, A.owns n = true → B.owns n = false)
    {p q : List (Text × Json)} (hp : ∀ m ∈ p, A.owns m.1 = true) (hq : ∀ m ∈ q, B.owns m.1 = true)
    (hpnodup : (names p).Nodup) (hqnodup : (names q).Nodup) : (names (p ++ q)).Nodup := by
  rw [Json.names_append, List.nodup_append']
  refine ⟨hpnodup, hqnodup, fun n hnp hnq => ?_⟩
  -- a name that both have written would be owned twice
  obtain ⟨m, hm, rfl⟩ := List.mem_map.mp hnp
  obtain ⟨m', hm', hmm'⟩ := List.mem_map.mp hnq
  have howns := hdisjoint m.1 (hp m hm)
  rw [← hmm', hq m' hm'] at howns
  cases howns

theorem normal_left_pair {ms : List (Text × Json)} {m : Text × Json} (hm : m ∈ A.own ms) :
    (pair A B).normal m = A.normal m :=
  if_pos (mem_own.mp hm).2

theorem normal_right_pair (hdisjoint : ∀ n, A.owns n = true → B.owns n = false)
    {ms : List (Text × Json)} {m : Text × Json} (hm : m ∈ B.own ms) :
    (pair A B).normal m = B.normal m :=
  if_neg fun howns => by
    have hnot := hdisjoint m.1 howns
    rw [(mem_own.mp hm).2] at hnot
    cases hnot

/-- What is written alike part by part is written alike. -/
theorem Alike.pair {encodable : Prop} {r q : α × β} (hA : A.Alike encodable r.1 q.1)
    (hB : B.Alike encodable r.2 q.2) : (Part.pair A B).Alike encodable r q := by
  apply LiftRel.bind hA
  intro a a' haa'
  apply LiftRel.bind hB
  intro b b' hbb'
  apply LiftRel.ok
  rw [Json.mapValues_append, Json.mapValues_append]
  exact haa'.append hbb'

/-- **Parts with different names make a lawful part.** -/
theorem Lawful.pair (hA : A.Lawful) (hB : B.Lawful)
    (hdisjoint : ∀ n, A.owns n = true → B.owns n = false) : (pair A B).Lawful where
  locality := by
    intro ms ns h
    have hleft : A.readJson ms = A.readJson ns :=
      hA.locality (by rw [← own_left_pair (B := B), h, own_left_pair])
    have hright : B.readJson ms = B.readJson ns :=
      hB.locality (by rw [← own_right_pair (A := A), h, own_right_pair])
    exact congrArg₂ Checked.both hleft hright
  wellFormed := by
    intro ms r hms h
    obtain ⟨ha, hb⟩ := readJson_pair_iff.mp h
    exact ⟨hA.wellFormed hms ha, hB.wellFormed hms hb⟩
  orderless := by
    intro ms ns hms hperm
    apply (Checked.liftRel_both (hA.orderless hms hperm) (hB.orderless hms hperm)).mono
    intro r q hrq
    exact Prod.ext hrq.1 hrq.2
  alike := by
    intro encodable ms ns r q h hr hq
    obtain ⟨hra, hrb⟩ := readJson_pair_iff.mp hr
    obtain ⟨hqa, hqb⟩ := readJson_pair_iff.mp hq
    exact .pair (hA.alike h hra hqa) (hB.alike h hrb hqb)
  comesBack := by
    intro r p hr h
    obtain ⟨pa, pb, hpa, hpb, rfl⟩ := write_pair_iff.mp h
    obtain ⟨hamembers, hanodup, haread, hawrite⟩ := hA.comesBack hr.1 hpa
    obtain ⟨hbmembers, hbnodup, hbread, hbwrite⟩ := hB.comesBack hr.2 hpb
    -- each part finds its own members in what both have written
    have hleft : A.own (pa ++ pb) = A.own pa := own_append_left fun m hm => by
      cases howns : A.owns m.1 with
      | false => rfl
      | true => rw [← (hbmembers m hm).1, hdisjoint m.1 howns]
    have hright : B.own (pa ++ pb) = B.own pb :=
      own_append_right fun m hm => hdisjoint m.1 (hamembers m hm).1
    refine ⟨fun m hm => ?_, ?_, ?_, write_pair_iff.mpr ⟨pa, pb, hawrite, hbwrite, rfl⟩⟩
    · rcases List.mem_append.mp hm with hm | hm
      · obtain ⟨howns, hname, hsettled, hwithin⟩ := hamembers m hm
        exact ⟨by simp [Part.pair, howns], hname, hsettled, hwithin.mono (le_max_left _ _)⟩
      · obtain ⟨howns, hname, hsettled, hwithin⟩ := hbmembers m hm
        exact ⟨by simp [Part.pair, howns], hname, hsettled, hwithin.mono (le_max_right _ _)⟩
    · exact nodup_names_append hdisjoint (fun m hm => (hamembers m hm).1)
        (fun m hm => (hbmembers m hm).1) hanodup hbnodup
    · exact readJson_pair_iff.mpr ⟨(hA.locality hleft).trans haread, (hB.locality hright).trans hbread⟩
  written := by
    intro ms p r hms h hp
    obtain ⟨ha, hb⟩ := readJson_pair_iff.mp h
    obtain ⟨pa, pb, hpa, hpb, rfl⟩ := write_pair_iff.mp hp
    -- the conversions of the pair are those of the part that owns the member
    have hleft : (A.own ms).map (fun m => (m.1, (A.normal m).written.sorted)) =
        (A.own ms).map fun m => (m.1, ((Part.pair A B).normal m).written.sorted) :=
      List.map_congr_left fun m hm => by rw [normal_left_pair hm]
    have hright : (B.own ms).map (fun m => (m.1, (B.normal m).written.sorted)) =
        (B.own ms).map fun m => (m.1, ((Part.pair A B).normal m).written.sorted) :=
      List.map_congr_left fun m hm => by rw [normal_right_pair hdisjoint hm]
    rw [Json.mapValues_append]
    refine ((hA.written hms ha hpa).append (hB.written hms hb hpb)).trans ?_
    rw [hleft, hright, ← List.map_append]
    exact (own_pair_perm hdisjoint ms).symm.map _
  kept := by
    intro ms p r hms hnames hfinite h hp
    obtain ⟨ha, hb⟩ := readJson_pair_iff.mp h
    obtain ⟨pa, pb, hpa, hpb, rfl⟩ := write_pair_iff.mp hp
    exact Prod.ext (hA.kept hms hnames hfinite ha hpa) (hB.kept hms hnames hfinite hb hpb)
  finite := by
    intro ms r h hr hms m hm
    obtain ⟨ha, hb⟩ := readJson_pair_iff.mp h
    rcases mem_own_pair.mp hm with hm | hm
    · exact hA.finite ha hr.1 hms m hm
    · exact hB.finite hb hr.2 hms m hm
  sameNames := by
    intro ms ns r q hr hq hrq hms hns hnames n hn
    obtain ⟨hra, hrb⟩ := readJson_pair_iff.mp hr
    obtain ⟨hqa, hqb⟩ := readJson_pair_iff.mp hq
    rcases mem_own_pair.mp hn with hn | hn
    · exact hA.sameNames hra hqa (Prod.mk.inj hrq).1 hms hns
        (fun m hm => hnames m (mem_own_pair.mpr (.inl hm))) n hn
    · exact hB.sameNames hrb hqb (Prod.mk.inj hrq).2 hms hns
        (fun m hm => hnames m (mem_own_pair.mpr (.inr hm))) n hn

end

end Part

namespace Format

variable {α β : Type}

/-! ## Records -/

/-- Records of a kind, made of what a part reads. -/
def record (kind : String) (P : Part β) (e : β ≃ α) : Format α where
  read := fun v => do
    let ms ← Check.record kind v
    Check.readable ms ((P.read ms).map e)
  write := fun a => return .object (← P.write (e.symm a))
  ordered := fun a => e (P.ordered (e.symm a))
  settled := fun a => e (P.settled (e.symm a))
  WellFormed := fun a => P.WellFormed (e.symm a)
  Finite := fun a => P.Finite (e.symm a)
  normal := Json.mapMembers P.normal
  depth := P.depth + 1

section

variable {kind : String} {P : Part β} {e : β ≃ α}

theorem read_record_iff {u : Json} {a : α} :
    (record kind P e).read (.ofJson u) = .ok a ↔
      ∃ ms, u = .object ms ∧ (∀ n ∈ names ms, n.Encodable) ∧ P.readJson ms = .ok (e.symm a) := by
  refine Except.bind_eq_ok_iff.trans ?_
  simp only [Check.record_eq_ok_iff]
  -- a mapping is a record if its names can be read and its parts
  constructor
  · rintro ⟨_, ⟨ms, rfl, rfl⟩, h⟩
    obtain ⟨hnames, h⟩ := Check.readable_eq_ok_iff.mp h
    obtain ⟨b, hb, rfl⟩ := Except.map_eq_ok_iff.mp h
    exact ⟨ms, rfl, hnames, by rwa [e.symm_apply_apply]⟩
  · rintro ⟨ms, rfl, hnames, h⟩
    refine ⟨_, ⟨ms, rfl, rfl⟩, Check.readable_eq_ok_iff.mpr ⟨hnames, ?_⟩⟩
    exact Except.map_eq_ok_iff.mpr ⟨_, h, e.apply_symm_apply a⟩

theorem write_record_iff {a : α} {j : Json} :
    (record kind P e).write a = .ok j ↔ ∃ p, P.write (e.symm a) = .ok p ∧ .object p = j :=
  Except.bind_pure_eq_ok_iff

/-- Records with parts that are written alike are written alike, if they repeat no name. -/
theorem Alike.record {encodable : Prop} {a b : α}
    (hnodup : ∀ p, P.write (e.symm a) = .ok p → (names p).Nodup)
    (h : P.Alike encodable (e.symm a) (e.symm b)) : (Format.record kind P e).Alike encodable a b := by
  apply LiftRel.bind h.attach
  rintro p q ⟨hp, -, hperm⟩
  apply LiftRel.ok
  exact Json.sorted_object_of_perm (hnodup p hp) hperm

/-- The names of a record can be encoded, so none of them is replaced in writing. -/
theorem written_mapMembers {f : Text × Json → Json} {ms : List (Text × Json)}
    (hms : Part.Readable ms) :
    (Json.mapMembers f (.object ms)).written = .object (ms.map fun m => (m.1, (f m).written)) := by
  have hmap : mapValues Json.written (ms.map fun m => (m.1, f m)) =
      ms.map fun m => (m.1, (f m).written) := by
    rw [mapValues, List.map_map]
    rfl
  have hsame : names (ms.map fun m => (m.1, (f m).written)) = names ms := by
    rw [names, List.map_map]
    rfl
  rw [Json.mapMembers, Json.written_object, hmap,
    Json.renamedMembers_eq_self (by rw [hsame]; exact hms.nodup) (by rw [hsame]; exact hms.names)]

/-- **A lawful part that owns all names makes a lawful format of records.** -/
theorem lawful_record (hP : P.Lawful) (howns : ∀ n, P.owns n = true) :
    (record kind P e).Lawful where
  wellFormed := by
    intro u a hu h
    obtain ⟨ms, rfl, hnames, hread⟩ := read_record_iff.mp h
    exact hP.wellFormed ⟨hu, hnames⟩ hread
  orderless := by
    intro u v hu huv
    rcases Json.sorted_eq_cases huv with
      ⟨-, rfl⟩ | ⟨items, items', rfl, rfl, -⟩ | ⟨ms, ns, rfl, rfl, hperm⟩
    · exact Except.map_eq_map_iff.mp rfl
    · rw [Value.ofJson_list, Value.ofJson_list]
      exact .error rfl
    · rw [Value.ofJson_object, Value.ofJson_object]
      show LiftRel _ _ (Check.readable _ ((P.readJson ms).map e))
        (Check.readable _ ((P.readJson ns).map e))
      by_cases hnames : ∀ n ∈ names ms, n.Encodable
      · have hms : Part.Readable ms := ⟨hu, hnames⟩
        rw [Check.readable_of_encodable hnames, Check.readable_of_encodable (hms.perm hperm).names]
        apply (hP.orderless hms hperm).map
        intro a b hab
        show e (P.ordered (e.symm (e a))) = e (P.ordered (e.symm (e b)))
        rw [e.symm_apply_apply, e.symm_apply_apply, hab]
      · have hnames' : ¬∀ n ∈ names ns, n.Encodable := fun h =>
          hnames fun n hn => h n ((Json.names_perm_of_sorted hperm).subset hn)
        rw [Check.readable_of_not_encodable hnames, Check.readable_of_not_encodable hnames']
        exact .error rfl
  alike := by
    intro encodable u v a b huv ha hb
    obtain ⟨ms, rfl, hnames, hread⟩ := read_record_iff.mp ha
    obtain ⟨ns, rfl, -, hread'⟩ := read_record_iff.mp hb
    have hwellFormed := hP.wellFormed ⟨huv.apart.proper, hnames⟩ hread
    exact Alike.record (fun p hp => (hP.comesBack hwellFormed hp).2.1) (hP.alike huv hread hread')
  comesBack := by
    intro a j ha h
    obtain ⟨p, hp, rfl⟩ := write_record_iff.mp h
    obtain ⟨hmembers, hnodup, hread, hwrite⟩ := hP.comesBack ha hp
    have hnames : ∀ n ∈ names p, n.Encodable := by
      intro n hn
      obtain ⟨m, hm, rfl⟩ := List.mem_map.mp hn
      exact (hmembers m hm).2.1
    have hback : e.symm ((record kind P e).settled a) = P.settled (e.symm a) :=
      e.symm_apply_apply _
    refine ⟨?_, fun m hm => (hmembers m hm).2.2.2, ?_, ?_⟩
    · exact Json.settled_object.mpr ⟨hnodup, hnames, fun m hm => (hmembers m hm).2.2.1⟩
    · exact read_record_iff.mpr ⟨p, rfl, hnames, by rw [hback, hread]⟩
    · exact write_record_iff.mpr ⟨p, by rw [hback, hwrite], rfl⟩
  written := by
    intro u a j hu h hj
    obtain ⟨ms, rfl, hnames, hread⟩ := read_record_iff.mp h
    obtain ⟨p, hp, rfl⟩ := write_record_iff.mp hj
    have hms : Part.Readable ms := ⟨hu, hnames⟩
    have hperm := hP.written hms hread hp
    have hnodup := (hP.comesBack (hP.wellFormed hms hread) hp).2.1
    have hown : P.own ms = ms := List.filter_eq_self.mpr fun m _ => howns m.1
    rw [hown] at hperm
    show _ = (Json.mapMembers P.normal (.object ms)).written.sorted
    rw [written_mapMembers hms]
    refine Json.sorted_object_of_perm hnodup (hperm.trans (.of_eq ?_))
    rw [mapValues, List.map_map]
    rfl
  kept := by
    intro u a j hu hencodable hfinite h hj
    obtain ⟨ms, rfl, hnames, hread⟩ := read_record_iff.mp h
    obtain ⟨p, hp, rfl⟩ := write_record_iff.mp hj
    show e (P.settled (e.symm a)) = a
    rw [hP.kept ⟨hu, hnames⟩ (Json.everywhere_object.mp hencodable).2
      (Json.everywhere_object.mp hfinite).2 hread hp, e.apply_symm_apply]
  finite := by
    intro u a h ha hu
    obtain ⟨ms, rfl, hnames, hread⟩ := read_record_iff.mp h
    exact Json.everywhere_object.mpr ⟨trivial, fun m hm =>
      hP.finite hread ha ⟨hu, hnames⟩ m (Part.mem_own.mpr ⟨hm, howns m.1⟩)⟩
  sameNames := by
    intro u v a b hu hv hab hup hvp hencodable
    obtain ⟨ms, rfl, hms, hread⟩ := read_record_iff.mp hu
    obtain ⟨ns, rfl, hns, hread'⟩ := read_record_iff.mp hv
    refine Json.everywhere_object.mpr ⟨hns, fun n hn => ?_⟩
    refine hP.sameNames hread hread' (e.injective hab) ⟨hup, hms⟩ ⟨hvp, hns⟩ (fun m hm => ?_) n
      (Part.mem_own.mpr ⟨hn, howns n.1⟩)
    exact (Json.everywhere_object.mp hencodable).2 m (Part.mem_own.mp hm).1

/-- A record that comes back repeats no name. -/
theorem nodup_of_write_record (h : (record kind P e).Lawful) {a : α}
    (ha : (record kind P e).WellFormed a) {p : List (Text × Json)} (hp : P.write (e.symm a) = .ok p) :
    (names p).Nodup :=
  (Json.settled_object.mp (h.comesBack ha (write_record_iff.mpr ⟨p, hp, rfl⟩)).1).1

end

/-! ## Restrictions -/

/-- The values of a format that a stricter check lets through. -/
def restrict (F : Format α) (read : Value → Checked α) (good : α → Prop) : Format α where
  __ := F
  read := read
  WellFormed := fun a => F.WellFormed a ∧ good a

/-- A stricter check is lawful when it looks only at what order and writing do not change. -/
theorem Lawful.restrict {F : Format α} (hF : F.Lawful) {read : Value → Checked α} {good : α → Prop}
    (hread : ∀ {v a}, read v = .ok a ↔ F.read v = .ok a ∧ good a)
    (horderless : ∀ {u v : Json}, u.Proper → u.sorted = v.sorted →
      LiftRel Eq (fun a b => F.ordered a = F.ordered b) (read (.ofJson u)) (read (.ofJson v)))
    (hsettled : ∀ {a}, good a → good (F.settled a)) : (F.restrict read good).Lawful where
  wellFormed hu h := ⟨hF.wellFormed hu (hread.mp h).1, (hread.mp h).2⟩
  orderless := horderless
  alike huv ha hb := hF.alike huv (hread.mp ha).1 (hread.mp hb).1
  -- the laws are those of the format, under one more condition that settling keeps
  comesBack := by
    intro a j ha h
    obtain ⟨hj, hwithin, hback, hwrite⟩ := hF.comesBack ha.1 h
    exact ⟨hj, hwithin, hread.mpr ⟨hback, hsettled ha.2⟩, hwrite⟩
  written hu h hj := hF.written hu (hread.mp h).1 hj
  kept hu hnames hfinite h hj := hF.kept hu hnames hfinite (hread.mp h).1 hj
  finite h := hF.finite (hread.mp h).1
  sameNames hu hv hab := hF.sameNames (hread.mp hu).1 (hread.mp hv).1 hab

end Format

end SchemaGraft
