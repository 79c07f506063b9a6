import SchemaGraft.Proofs.Json.Normal

/-!
# Spellings of a Value

A document can be spelled in many ways: the members of an object may come in any order.  Writing forgets
the order, unless two members of an object get the same name on the way.

## Architecture

- **Names that stay apart**: `Json.NamesApart`; it is enough that all names can be encoded.
- **Writing**: `Json.written_sorted_of_apart`.
- **Spellings**: `Json.Respelled` relates two documents, and so their items and members.
-/

namespace SchemaGraft.Json

/-! ## Names That Stay Apart -/

/-- No two members of an object have names that are written in the same way. -/
def NamesApart : Json → Prop :=
  Everywhere (fun _ => True) fun ns => (ns.map Text.asName).Nodup

theorem NamesApart.proper {v : Json} (h : v.NamesApart) : v.Proper :=
  Everywhere.imp (fun _ _ => trivial) (fun _ hns => hns.of_map _) h

/-- Names that can be encoded are written as they are. -/
theorem namesApart_of_namesEncodable {v : Json} (hproper : v.Proper) (hnames : v.NamesEncodable) :
    v.NamesApart := by
  induction v with
  | list items ih =>
    exact everywhere_list.mpr fun v hv =>
      ih v hv (everywhere_list.mp hproper v hv) (everywhere_list.mp hnames v hv)
  | object ms ih =>
    obtain ⟨hnodup, hproper⟩ := everywhere_object.mp hproper
    obtain ⟨hencodable, hnames⟩ := everywhere_object.mp hnames
    refine everywhere_object.mpr ⟨?_, fun m hm => ih m hm (hproper m hm) (hnames m hm)⟩
    rwa [List.map_congr_left fun n hn => Text.asName_eq_self (hencodable n hn), List.map_id']
  | _ => trivial

theorem namesApart_sorted {v : Json} : v.sorted.NamesApart ↔ v.NamesApart :=
  everywhere_sorted (fun _ _ h => (h.map Text.asName).nodup_iff) v

/-! ## Writing -/

/-- Members whose names stay apart are all written. -/
theorem renamedMembers_of_apart {ms : List (Text × Json)} (h : ((names ms).map Text.asName).Nodup) :
    renamedMembers ms = ms.map fun m => (m.1.asName, m.2) := by
  rw [renamedMembers]
  apply ofPairs_eq_self
  rw [names, List.map_map] at h ⊢
  exact h

/-- Writing what was sorted before gives the same members. -/
theorem written_sorted_of_apart {v : Json} (h : v.NamesApart) :
    v.written.sorted = v.sorted.written.sorted := by
  induction v with
  | list items ih =>
    rw [written_list, sorted_list, sorted_list, written_list, sorted_list, List.map_map, List.map_map,
      List.map_map]
    exact congrArg _ (List.map_congr_left fun v hv => ih v hv (everywhere_list.mp h v hv))
  | object ms ih =>
    obtain ⟨hnames, hms⟩ := everywhere_object.mp h
    have hsorted : ((names (byName (mapValues sorted ms))).map Text.asName).Nodup := by
      have hperm := (names_byName_perm (mapValues sorted ms)).map Text.asName
      rwa [hperm.nodup_iff, names_mapValues]
    rw [written_object, sorted_object ms, written_object,
      renamedMembers_of_apart (by rwa [names_mapValues]),
      renamedMembers_of_apart (by rwa [names_mapValues])]
    -- the members are the same, value by value, so their order is of no account
    apply sorted_object_of_perm
    · rw [names, mapValues, List.map_map, List.map_map]
      rw [names, List.map_map] at hnames
      exact hnames
    · have hvalues : mapValues sorted (mapValues written ms) =
          mapValues sorted (mapValues written (mapValues sorted ms)) := by
        rw [mapValues_mapValues, mapValues_mapValues, mapValues_mapValues]
        exact mapValues_congr fun m hm => ih m hm (hms m hm)
      have hrename (ns : List (Text × Json)) :
          mapValues sorted (ns.map fun m => (m.1.asName, m.2)) =
            (mapValues sorted ns).map fun m => (m.1.asName, m.2) := by
        rw [mapValues, mapValues, List.map_map, List.map_map]
        rfl
      rw [hrename, hrename, hvalues]
      exact ((((byName_perm _).symm.map _).map _).map _)
  | _ => rfl

/-! ## Spellings -/

/-- Another spelling of a value whose names stay apart, as a document may hold it.  Where `encodable` holds,
the names are known to have an encoding, too. -/
structure Respelled (encodable : Prop) (u v : Json) : Prop where
  /-- Names stay apart when they are written. -/
  apart : u.NamesApart
  /-- The names can be encoded, if that is asked for. -/
  namesEncodable : encodable → u.NamesEncodable
  /-- No integer has too many digits to be read. -/
  moderate : u.Moderate
  /-- The values are the same up to the order of members. -/
  sorted : u.sorted = v.sorted

namespace Respelled

variable {encodable : Prop}

/-- The other spelling has encodable names as well. -/
theorem names_right {u v : Json} (h : Respelled encodable u v) (he : encodable) : v.NamesEncodable := by
  rw [← namesEncodable_sorted, ← h.sorted, namesEncodable_sorted]
  exact h.namesEncodable he

theorem moderate_right {u v : Json} (h : Respelled encodable u v) : v.Moderate := by
  rw [← moderate_sorted, ← h.sorted, moderate_sorted]
  exact h.moderate

/-- Lists that are spelled differently have items that are. -/
theorem items {us vs : List Json} (h : Respelled encodable (.list us) (.list vs)) :
    List.Forall₂ (Respelled encodable) us vs := by
  have hsorted : us.map Json.sorted = vs.map Json.sorted := by simpa using h.sorted
  have hitems : ∀ u ∈ us, u.NamesApart ∧ (encodable → u.NamesEncodable) ∧ u.Moderate := fun u hu =>
    ⟨everywhere_list.mp h.apart u hu, fun he => everywhere_list.mp (h.namesEncodable he) u hu,
      everywhere_list.mp h.moderate u hu⟩
  exact (forall₂_of_map_sorted hsorted hitems).imp fun u v huv =>
    ⟨huv.1.1, huv.1.2.1, huv.1.2.2, huv.2⟩

section

variable {ms ns : List (Text × Json)} (h : Respelled encodable (.object ms) (.object ns))

include h

theorem perm : (mapValues Json.sorted ms).Perm (mapValues Json.sorted ns) := by
  obtain ⟨_, hns, hperm⟩ := eq_object_of_sorted h.sorted
  cases hns
  exact hperm

theorem nodup : (names ms).Nodup :=
  (everywhere_object.mp h.apart.proper).1

/-- The value of a member of one object is respelled in the other. -/
theorem lookup (name : Text) :
    Option.Rel (Respelled encodable) (lookup name ms) (Json.lookup name ns) := by
  have hlookup := lookup_rel_of_sorted
    (P := fun u => u.NamesApart ∧ (encodable → u.NamesEncodable) ∧ u.Moderate) h.nodup h.perm name
    fun u hu => ⟨h.apart.lookup hu, fun he => (h.namesEncodable he).lookup hu, h.moderate.lookup hu⟩
  generalize Json.lookup name ms = o at hlookup ⊢
  generalize Json.lookup name ns = o' at hlookup ⊢
  cases hlookup with
  | none => exact .none
  | some huv => exact .some ⟨huv.1.1, huv.1.2.1, huv.1.2.2, huv.2⟩

end

end Respelled

end SchemaGraft.Json
