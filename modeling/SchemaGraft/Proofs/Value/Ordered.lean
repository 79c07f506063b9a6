import SchemaGraft.Proofs.Value.Plain

/-!
# Data Up to Order, and Data That Came Back

Mappings are compared without regard to the order of their entries.  `Value.ordered` brings the entries
in the order of their names, so that comparing becomes equality; `Value.settled` is the value that comes
back when a value has been written, and `Value.Finite` says that no number gets lost on the way.
-/

namespace SchemaGraft

open Json (names mapValues byName)

/-! ## Order -/

/-- What the entries of a mapping are sorted by.  Keys that are not texts, which no document has, stay in
front. -/
def Scalar.sortKey : Scalar → Text
  | .text t => t
  | _ => []

namespace Value

mutual

/-- The value with the entries of every mapping in the order of their names. -/
def ordered : Value → Value
  | .list items => .list (orderedItems items)
  | .pair a b => .pair (ordered a) (ordered b)
  | .object ms => .object ((orderedEntries ms).mergeSort fun m n => m.1.sortKey.le n.1.sortKey)
  | v => v

/-- `ordered` on the items of a list. -/
def orderedItems : List Value → List Value
  | [] => []
  | v :: rest => ordered v :: orderedItems rest

/-- `ordered` on the values of entries. -/
def orderedEntries : List (Scalar × Value) → List (Scalar × Value)
  | [] => []
  | (k, v) :: rest => (k, ordered v) :: orderedEntries rest

end

/-- Items are put in order one by one. -/
theorem orderedItems_eq (items : List Value) : orderedItems items = items.map ordered := by
  induction items with
  | nil => rfl
  | cons v rest ih => rw [orderedItems, ih, List.map_cons]

/-- So are the values of entries. -/
theorem orderedEntries_eq (ms : List (Scalar × Value)) :
    orderedEntries ms = ms.map fun m => (m.1, ordered m.2) := by
  induction ms with
  | nil => rfl
  | cons m rest ih => rw [orderedEntries, ih, List.map_cons]

/-- Members with ordered values, in the order of their names. -/
def orderedMembers (ms : List (Text × Value)) : List (Text × Value) :=
  byName (mapValues ordered ms)

/-- A mapping with texts as keys is ordered by its members. -/
theorem ordered_object_entries (ms : List (Text × Value)) :
    (object (TypeRef.entries ms)).ordered = .object (TypeRef.entries (orderedMembers ms)) := by
  have hentries : orderedEntries (TypeRef.entries ms) = TypeRef.entries (mapValues ordered ms) := by
    rw [orderedEntries_eq]
    simp only [TypeRef.entries, mapValues, List.map_map]
    rfl
  rw [ordered, hentries, TypeRef.entries, ← List.map_mergeSort (r := fun m n => m.1.le n.1)
    (f := fun m : Text × Value => (Scalar.text m.1, m.2)) (fun _ _ _ _ => rfl)]
  rfl

/-- **Values of documents are equal up to order when their sorted forms are equal.** -/
theorem ordered_ofJson (v : Json) : (ofJson v).ordered = ofJson v.sorted := by
  -- on the document; names are texts, so both orders are the order of texts
  induction v with
  | list items ih =>
    rw [ofJson_list, ordered, orderedItems_eq, Json.sorted_list, ofJson_list, List.map_map,
      List.map_map]
    exact congrArg _ (List.map_congr_left ih)
  | object ms ih =>
    have hvalues : mapValues ordered (mapValues ofJson ms) =
        mapValues ofJson (mapValues Json.sorted ms) := by
      rw [Json.mapValues_mapValues, Json.mapValues_mapValues]
      exact Json.mapValues_congr ih
    rw [ofJson_object, ordered_object_entries, Json.sorted_object, ofJson_object,
      Json.mapValues_byName, orderedMembers, hvalues]
  | _ => rfl

/-- Members of a document are put in order as its mappings are sorted. -/
theorem orderedMembers_ofJson (ms : List (Text × Json)) :
    orderedMembers (mapValues ofJson ms) = mapValues ofJson (byName (mapValues Json.sorted ms)) := by
  rw [orderedMembers, Json.mapValues_byName, Json.mapValues_mapValues, Json.mapValues_mapValues]
  congr 2
  exact funext ordered_ofJson

/-! ## Coming Back -/

/-- The value that comes back when a value has been written. -/
def settled (v : Value) : Value :=
  match v.plain with
  | .ok j => ofJson j
  | .error _ => v

/-- What a value with a written form settles to is that form. -/
theorem settled_eq {v : Value} {j : Json} (h : v.plain = .ok j) : v.settled = ofJson j := by
  rw [settled, h]

/-- The members that come back when members have been written. -/
def settledMembers (ms : List (Text × Value)) : List (Text × Value) :=
  Json.ofPairs (ms.map fun m => (m.1.asName, m.2.settled))

/-! ## Finite Numbers -/

mutual

/-- Is every floating-point number in the value finite? -/
def Finite : Value → Prop
  | .scalar (.float x) => x.isFinite = true
  | .list items => FiniteItems items
  | .pair a b => Finite a ∧ Finite b
  | .set members => ∀ x, Scalar.float x ∈ members → x.isFinite = true
  | .object ms => FiniteEntries ms
  | _ => True

/-- `Finite` for the items of a list. -/
def FiniteItems : List Value → Prop
  | [] => True
  | v :: rest => Finite v ∧ FiniteItems rest

/-- `Finite` for the values of entries. -/
def FiniteEntries : List (Scalar × Value) → Prop
  | [] => True
  | (_, v) :: rest => Finite v ∧ FiniteEntries rest

end

theorem finiteItems_iff {items : List Value} : FiniteItems items ↔ ∀ v ∈ items, v.Finite := by
  induction items with
  | nil => simp [FiniteItems]
  | cons v rest ih => rw [FiniteItems, ih, List.forall_mem_cons]

theorem finiteEntries_iff {ms : List (Scalar × Value)} :
    FiniteEntries ms ↔ ∀ m ∈ ms, m.2.Finite := by
  induction ms with
  | nil => simp [FiniteEntries]
  | cons m rest ih => rw [FiniteEntries, ih, List.forall_mem_cons]

/-- The numbers of a document are those of its value. -/
theorem finite_ofJson {v : Json} : (ofJson v).Finite ↔ v.Finite := by
  induction v with
  | list items ih =>
    rw [ofJson_list, Finite, finiteItems_iff, List.forall_mem_map, Json.Finite,
      Json.everywhere_list]
    exact forall₂_congr ih
  | object ms ih =>
    rw [ofJson_object, Finite, finiteEntries_iff, TypeRef.entries, mapValues, List.map_map,
      List.forall_mem_map, Json.Finite, Json.everywhere_object, true_and]
    exact forall₂_congr ih
  | _ => exact Iff.rfl

/-- `Finite` for the values of members. -/
def FiniteMembers (ms : List (Text × Value)) : Prop :=
  ∀ m ∈ ms, m.2.Finite

theorem finiteMembers_ofJson {ms : List (Text × Json)} :
    FiniteMembers (mapValues ofJson ms) ↔ ∀ m ∈ ms, m.2.Finite := by
  rw [FiniteMembers, mapValues, List.forall_mem_map]
  exact forall₂_congr fun m _ => finite_ofJson

end Value

end SchemaGraft
