import SchemaGraft.Proofs.Json.Normal

/-!
# Editing JSON Values

Changes at one place of a value: the items of a list, the members of an object, one member of it.

## Architecture

- **Views**: `Json.textAt` and `Json.itemsAt` look at one member of an object.
- **Edits**: `Json.mapItems`, `Json.mapMembers`, `Json.mapMember` and `Json.setMember`; what an edit is not
  about stays as it is, in its place.
- **Properties**: which properties of all parts survive an edit.
-/

namespace SchemaGraft.Json

/-! ## Views -/

/-- The text that an object holds under a name. -/
def textAt (name : String) : Json → Option Text
  | .object ms =>
    match lookup (Text.ofString name) ms with
    | some (.text t) => some t
    | _ => none
  | _ => none

/-- The items of the list that an object holds under a name; there are none when it holds no list. -/
def itemsAt (name : String) : Json → List Json
  | .object ms =>
    match lookup (Text.ofString name) ms with
    | some (.list items) => items
    | _ => []
  | _ => []

/-! ## Edits -/

/-- The value with every item of a list replaced; other values stay as they are. -/
def mapItems (f : Json → Json) : Json → Json
  | .list items => .list (items.map f)
  | v => v

/-- The value with every member of an object replaced; other values stay as they are. -/
def mapMembers (f : Text × Json → Json) : Json → Json
  | .object ms => .object (ms.map fun m => (m.1, f m))
  | v => v

/-- The value with one member of an object replaced, if the object has it. -/
def mapMember (name : String) (f : Json → Json) : Json → Json :=
  mapMembers fun m => if m.1 = Text.ofString name then f m.2 else m.2

/-- The value with one member of an object set, whether or not the object has it. -/
def setMember (name : String) (w : Json) : Json → Json
  | .object ms => .object (put (Text.ofString name) w ms)
  | v => v

@[simp] theorem mapItems_id : mapItems id = id := by
  funext v
  cases v <;> simp [mapItems]

theorem mapMembers_snd : mapMembers (fun m => m.2) = id := by
  funext v
  cases v <;> simp [mapMembers]

@[simp] theorem names_mapMembers (f : Text × Json → Json) (ms : List (Text × Json)) :
    names (ms.map fun m => (m.1, f m)) = names ms := by
  rw [names, List.map_map]
  rfl

/-- A member is found with its new value. -/
theorem lookup_mapMembers (f : Text × Json → Json) (name : Text) (ms : List (Text × Json)) :
    lookup name (ms.map fun m => (m.1, f m)) = (lookup name ms).map fun v => f (name, v) := by
  induction ms with
  | nil => rfl
  | cons m rest ih =>
    rw [List.map_cons, lookup_cons, lookup_cons, ih]
    split
    · next h => rw [← h]; rfl
    · rfl

/-! ## Properties -/

section

variable {leaf : Json → Prop} {node : List Text → Prop} {f : Json → Json}

/-- What holds throughout a list holds throughout it with other items for which it holds just as well. -/
theorem everywhere_mapItems {v : Json}
    (hf : ∀ items, v = .list items →
      ∀ u ∈ items, (Everywhere leaf node (f u) ↔ Everywhere leaf node u)) :
    Everywhere leaf node (mapItems f v) ↔ Everywhere leaf node v := by
  cases v with
  | list items =>
    rw [mapItems, everywhere_list, everywhere_list, List.forall_mem_map]
    exact forall₂_congr (hf items rfl)
  | _ => exact Iff.rfl

/-- So it is for a mapping in which the value of one member is replaced. -/
theorem everywhere_mapMember {name : String} {v : Json}
    (hf : ∀ ms, v = .object ms → ∀ u, (Text.ofString name, u) ∈ ms →
      (Everywhere leaf node (f u) ↔ Everywhere leaf node u)) :
    Everywhere leaf node (mapMember name f v) ↔ Everywhere leaf node v := by
  cases v with
  | object ms =>
    rw [mapMember, mapMembers, everywhere_object, everywhere_object, names_mapMembers,
      List.forall_mem_map]
    refine and_congr_right fun _ => forall₂_congr fun m hm => ?_
    dsimp only
    split
    · next hname => exact hf ms rfl m.2 (by rwa [← hname])
    · exact Iff.rfl
  | _ => exact Iff.rfl

/-- What holds of the values once a member is put holds of its value and of all others. -/
theorem forall_mem_put {β : Type} {p : β → Prop} {name : Text} {v : β} {ms : List (Text × β)}
    (hnodup : (names ms).Nodup) :
    (∀ m ∈ put name v ms, p m.2) ↔ p v ∧ ∀ m ∈ ms, m.1 ≠ name → p m.2 := by
  induction ms with
  | nil => simp [put]
  | cons m rest ih =>
    obtain ⟨k, w⟩ := m
    rw [names_cons, List.nodup_cons] at hnodup
    obtain ⟨hk, hnodup⟩ := hnodup
    rw [put]
    split
    · next h =>
      subst h
      -- no other member has the name
      have hother : ∀ m ∈ rest, m.1 ≠ k := by
        rintro m hm rfl
        exact hk (mem_names_of_mem (m := m) hm)
      simp only [List.forall_mem_cons, ne_eq, not_true_eq_false, false_implies, true_and]
      exact and_congr_right fun _ => forall₂_congr fun m hmem => by simp [hother m hmem]
    · next h =>
      rw [List.forall_mem_cons, ih hnodup, List.forall_mem_cons]
      simp only [ne_eq, h, not_false_eq_true, true_implies]
      tauto

/-- Setting a list that extends the one that is there keeps the properties of what was there. -/
theorem everywhere_setMember_append {name : String} {ms : List (Text × Json)}
    {items new : List Json} (hnodup : (names ms).Nodup)
    (hitems : lookup (Text.ofString name) ms = some (.list items) ∨
      lookup (Text.ofString name) ms = none ∧ items = [])
    (hnode : node (names (put (Text.ofString name) (.list (items ++ new)) ms)) ↔ node (names ms))
    (hnew : ∀ v ∈ new, Everywhere leaf node v) :
    Everywhere leaf node (setMember name (.list (items ++ new)) (.object ms)) ↔
      Everywhere leaf node (.object ms) := by
  rw [setMember, everywhere_object, everywhere_object, hnode, forall_mem_put hnodup,
    everywhere_list, List.forall_mem_append]
  refine and_congr_right fun _ => ?_
  constructor
  · rintro ⟨⟨hold, -⟩, hother⟩ m hm
    by_cases hname : m.1 = Text.ofString name
    · have hlookup := lookup_of_mem hnodup (show (m.1, m.2) ∈ ms from hm)
      rw [hname] at hlookup
      rcases hitems with hitems | ⟨hitems, -⟩
      · rw [Option.some.inj (hlookup.symm.trans hitems), everywhere_list]
        exact hold
      · rw [hlookup] at hitems
        cases hitems
    · exact hother m hm hname
  · intro h
    refine ⟨⟨?_, hnew⟩, fun m hm _ => h m hm⟩
    rcases hitems with hitems | ⟨-, rfl⟩
    · exact everywhere_list.mp (h _ (mem_of_lookup hitems))
    · simp

end

end SchemaGraft.Json
