import SchemaGraft.Proofs.Json.Shape
import SchemaGraft.Value.Plain

/-!
# What Writing Changes

A value that is read from a document and written again comes out changed in two ways: numbers without a
finite value become null, and names that cannot be encoded get replacement characters.

## Architecture

- **Names**: `Text.asName` leaves exactly the encodable texts alone.
- **Numbers**: `Json.dropNonFinite` keeps all names.
- **Renaming**: `Json.renamed`; it changes nothing exactly when all names can be encoded.
- **Writing**: `Json.written` does both.

Values that are `Json.Settled` are changed in neither way.
-/

namespace SchemaGraft

/-! ## Names -/

namespace Text

/-- What becomes of a text as a name can be encoded. -/
theorem encodable_asName (t : Text) : t.asName.Encodable := by
  intro c hc
  obtain ⟨d, -, hd⟩ := List.mem_flatMap.mp hc
  cases d with
  | scalar d => rw [List.mem_singleton.mp hd]; rfl
  | surrogate o => rw [List.eq_of_mem_replicate hd]; rfl

/-- A text that can be encoded is its own name. -/
theorem asName_eq_self {t : Text} (h : t.Encodable) : t.asName = t := by
  induction t with
  | nil => rfl
  | cons c t ih =>
    obtain ⟨hc, ht⟩ := List.forall_mem_cons.mp h
    cases c with
    | surrogate o => cases hc
    | scalar c =>
      rw [asName] at ih ⊢
      rw [List.flatMap_cons, ih ht]
      rfl

end Text

namespace Json

/-! ## Numbers Without a Finite Value -/

/-- Null for a number without a finite value. -/
def finiteForm : Json → Json
  | .float x => if x.isFinite then .float x else .null
  | v => v

theorem isScalar_finiteForm {v : Json} (h : v.isScalar = true) : v.finiteForm.isScalar = true := by
  cases v with
  | float x => rw [finiteForm]; split <;> rfl
  | _ => exact h

/-- The value with null in the place of every number without a finite value. -/
def dropNonFinite : Json → Json :=
  rebuild finiteForm id

@[simp] theorem dropNonFinite_list (items : List Json) :
    (list items).dropNonFinite = .list (items.map dropNonFinite) :=
  rebuild_list items

@[simp] theorem dropNonFinite_object (ms : List (Text × Json)) :
    (object ms).dropNonFinite = .object (mapValues dropNonFinite ms) :=
  rebuild_object ms

theorem dropNonFinite_scalar {v : Json} (h : v.isScalar = true) : v.dropNonFinite = v.finiteForm :=
  rebuild_scalar h

/-- A value whose numbers are finite is left alone. -/
theorem dropNonFinite_eq_self {v : Json} (h : v.Finite) : v.dropNonFinite = v := by
  induction v with
  | list items ih =>
    rw [dropNonFinite_list, List.map_congr_left fun v hv => ih v hv (everywhere_list.mp h v hv)]
    exact congrArg _ (List.map_id' items)
  | object ms ih =>
    rw [dropNonFinite_object,
      mapValues_congr (g := id) fun m hm => ih m hm ((everywhere_object.mp h).2 m hm)]
    exact congrArg _ (mapValues_id ms)
  | float x => exact (dropNonFinite_scalar rfl).trans (if_pos h)
  | _ => rfl

/-- What is said of names is not affected. -/
theorem everywhere_dropNonFinite {node : List Text → Prop} {v : Json} :
    Everywhere (fun _ => True) node v.dropNonFinite ↔ Everywhere (fun _ => True) node v := by
  -- on the document: only leaves change, and no name does
  induction v with
  | list items ih =>
    rw [dropNonFinite_list, everywhere_list, everywhere_list, List.forall_mem_map]
    exact forall₂_congr ih
  | object ms ih =>
    rw [dropNonFinite_object, everywhere_object, everywhere_object, names_mapValues]
    refine and_congr_right fun _ => ?_
    rw [mapValues, List.forall_mem_map]
    exact forall₂_congr ih
  | _ =>
    rw [dropNonFinite_scalar rfl, everywhere_scalar (isScalar_finiteForm rfl), everywhere_scalar rfl]

/-! ## Renaming -/

/-- Members under the names that they are written with. -/
def renamedMembers (ms : List (Text × Json)) : List (Text × Json) :=
  ofPairs (ms.map fun m => (m.1.asName, m.2))

/-- Members are kept if their names are distinct and can be encoded. -/
theorem renamedMembers_eq_self {ms : List (Text × Json)} (hnodup : (names ms).Nodup)
    (hnames : ∀ n ∈ names ms, n.Encodable) : renamedMembers ms = ms := by
  have hsame : (ms.map fun m => (m.1.asName, m.2)) = ms := by
    refine (List.map_congr_left fun m hm => ?_).trans (List.map_id ms)
    rw [Text.asName_eq_self (hnames _ (mem_names_of_mem hm))]
    rfl
  rw [renamedMembers, hsame, ofPairs_eq_self hnodup]

/-- Each renamed member comes from a member with the same value. -/
theorem exists_mem_of_mem_renamedMembers {ms : List (Text × Json)} {m : Text × Json}
    (h : m ∈ renamedMembers ms) : ∃ m' ∈ ms, m = (m'.1.asName, m'.2) := by
  obtain ⟨m', hm', rfl⟩ := List.mem_map.mp (mem_of_mem_ofPairs h)
  exact ⟨m', hm', rfl⟩

/-- The value with every member under the name that it is written with. -/
def renamed : Json → Json :=
  rebuild id renamedMembers

@[simp] theorem renamed_list (items : List Json) :
    (list items).renamed = .list (items.map renamed) :=
  rebuild_list items

@[simp] theorem renamed_object (ms : List (Text × Json)) :
    (object ms).renamed = .object (renamedMembers (mapValues renamed ms)) :=
  rebuild_object ms

theorem renamed_scalar {v : Json} (h : v.isScalar = true) : v.renamed = v :=
  rebuild_scalar h

/-- A value whose names can be encoded is left alone. -/
theorem renamed_eq_self {v : Json} (hproper : v.Proper) (h : v.NamesEncodable) :
    v.renamed = v := by
  -- on the document: encodable names stay, and distinct ones stay apart
  induction v with
  | list items ih =>
    rw [renamed_list, List.map_congr_left fun v hv =>
      ih v hv (everywhere_list.mp hproper v hv) (everywhere_list.mp h v hv)]
    exact congrArg _ (List.map_id' items)
  | object ms ih =>
    obtain ⟨hnodup, hproper⟩ := everywhere_object.mp hproper
    obtain ⟨hnames, h⟩ := everywhere_object.mp h
    rw [renamed_object, mapValues_congr (g := id) fun m hm => ih m hm (hproper m hm) (h m hm),
      mapValues_id, renamedMembers_eq_self hnodup hnames]
  | _ => rfl

/-- What has been renamed has encodable names only. -/
theorem namesEncodable_renamed (v : Json) : v.renamed.NamesEncodable := by
  induction v with
  | list items ih =>
    rw [renamed_list]
    exact everywhere_list.mpr (List.forall_mem_map.mpr ih)
  | object ms ih =>
    rw [renamed_object]
    -- names come from members, and so do the values, which are renamed inside
    refine everywhere_object.mpr ⟨fun n hn => ?_, fun m hm => ?_⟩
    · obtain ⟨m, hm, rfl⟩ := List.mem_map.mp hn
      obtain ⟨m', -, rfl⟩ := exists_mem_of_mem_renamedMembers hm
      exact Text.encodable_asName _
    · obtain ⟨m', hm', rfl⟩ := exists_mem_of_mem_renamedMembers hm
      obtain ⟨m'', hm'', rfl⟩ := List.mem_map.mp hm'
      exact ih m'' hm''
  | _ => trivial

/-- **Renaming changes nothing exactly when all names can be encoded.** -/
theorem renamed_sorted_eq_iff {v : Json} (hproper : v.Proper) :
    v.renamed.sorted = v.sorted ↔ v.NamesEncodable := by
  constructor
  · intro h
    rw [← namesEncodable_sorted, ← h, namesEncodable_sorted]
    exact namesEncodable_renamed v
  · intro h
    rw [renamed_eq_self hproper h]

/-! ## Writing -/

/-- What a value of a document is written as. -/
def written (v : Json) : Json :=
  v.dropNonFinite.renamed

@[simp] theorem written_list (items : List Json) :
    (list items).written = .list (items.map written) := by
  rw [written, dropNonFinite_list, renamed_list, List.map_map]
  rfl

@[simp] theorem written_object (ms : List (Text × Json)) :
    (object ms).written = .object (renamedMembers (mapValues written ms)) := by
  rw [written, dropNonFinite_object, renamed_object, mapValues_mapValues]
  rfl

/-- Settled values are written as they are. -/
theorem Settled.written_eq {v : Json} (h : v.Settled) : v.written = v := by
  rw [written, dropNonFinite_eq_self h.finite, renamed_eq_self h.proper h.names]

end Json

end SchemaGraft
