import SchemaGraft.Config.Loading
import SchemaGraft.Proofs.Patch.Construction
import SchemaGraft.Proofs.World.Frame

/-!
# Keys of YAML Documents

In a mapping of a YAML document a later entry takes the place of an earlier one with the same key, so no
key is repeated in the value of the document.  A patch table that is loaded is therefore well formed.

## Architecture

- **Mappings**: `Value.proper_mappingOf`.
- **Nodes**: `Yaml.Reading.Gives` for what reading gives; `Yaml.Node.proper_value` goes through the nodes.
- **Documents**: `Yaml.proper_load`.
- **Tables**: `PatchTable.wellFormed_of_load`.
-/

namespace SchemaGraft

/-! ## Mappings -/

/-- An entry that was put has the new value, under the key or under one that is there already. -/
theorem Scalar.mem_of_mem_put {β : Type} {key : Scalar} {value : β} {ms : List (Scalar × β)}
    {m : Scalar × β} (h : m ∈ put key value ms) :
    m.2 = value ∧ (m.1 = key ∨ ∃ m' ∈ ms, m'.1 = m.1) ∨ m ∈ ms := by
  induction ms with
  | nil =>
    rw [List.mem_singleton.mp h]
    exact .inl ⟨rfl, .inl rfl⟩
  | cons n rest ih =>
    obtain ⟨k, v⟩ := n
    rw [put] at h
    -- a key that is the same as data keeps the spelling that it has
    split at h
    · rcases List.mem_cons.mp h with rfl | h
      · exact .inl ⟨rfl, .inr ⟨_, List.mem_cons_self, rfl⟩⟩
      · exact .inr (List.mem_cons_of_mem _ h)
    · rcases List.mem_cons.mp h with rfl | h
      · exact .inr List.mem_cons_self
      · rcases ih h with ⟨hvalue, hkey | ⟨m', hm', hkey⟩⟩ | h
        · exact .inl ⟨hvalue, .inl hkey⟩
        · exact .inl ⟨hvalue, .inr ⟨m', List.mem_cons_of_mem _ hm', hkey⟩⟩
        · exact .inr (List.mem_cons_of_mem _ h)

/-- Putting an entry does not repeat a text as a key. -/
theorem nodup_textKeys_put {key : Scalar} {value : Value} {ms : List (Scalar × Value)}
    (h : (textKeys ms).Nodup) : (textKeys (Scalar.put key value ms)).Nodup := by
  induction ms with
  | nil => cases key <;> simp [Scalar.put, textKeys]
  | cons m rest ih =>
    obtain ⟨k, v⟩ := m
    rw [Scalar.put]
    split
    · exact h
    · next hother =>
      cases k with
      | text t =>
        rw [textKeys_cons_text, List.nodup_cons] at h ⊢
        refine ⟨fun ht => ?_, ih h.2⟩
        obtain ⟨m, hm, hkey⟩ := mem_textKeys.mp ht
        -- the key is that of an old entry, or the new one
        rcases Scalar.mem_of_mem_put hm with ⟨-, hnew | ⟨m', hm', hold⟩⟩ | hm
        · rw [← hnew, hkey] at hother
          simp [Scalar.same] at hother
        · exact h.1 (mem_textKeys.mpr ⟨m', hm', hold.trans hkey⟩)
        · exact h.1 (mem_textKeys.mpr ⟨m, hm, hkey⟩)
      | _ => exact ih h

namespace Value

/-- Entries put one after the other into a proper mapping give a proper mapping. -/
theorem proper_foldl_put {entries ms : List (Scalar × Value)} (hentries : ProperEntries entries)
    (hms : (Value.object ms).Proper) :
    (Value.object (entries.foldl (fun ms e => Scalar.put e.1 e.2 ms) ms)).Proper := by
  induction entries generalizing ms with
  | nil => exact hms
  | cons e rest ih =>
    rw [ProperEntries] at hentries
    rw [Proper, properEntries_iff] at hms
    refine ih hentries.2 ?_
    rw [Proper, properEntries_iff]
    refine ⟨nodup_textKeys_put hms.1, fun m hm => ?_⟩
    -- each entry holds the new value, or is an old one
    rcases Scalar.mem_of_mem_put hm with ⟨hvalue, -⟩ | hm
    · rw [hvalue]
      exact hentries.1
    · exact hms.2 m hm

/-- A mapping that is made of entries is proper, whichever keys they have. -/
theorem proper_mappingOf {entries : List (Scalar × Value)} (h : ProperEntries entries) :
    (Value.object (Yaml.Node.mappingOf entries)).Proper :=
  proper_foldl_put h ⟨List.nodup_nil, trivial⟩

/-- Entries of proper values may be put together. -/
theorem properEntries_append {ms ns : List (Scalar × Value)} (hms : ProperEntries ms)
    (hns : ProperEntries ns) : ProperEntries (ms ++ ns) := by
  rw [properEntries_iff] at hms hns ⊢
  exact List.forall_mem_append.mpr ⟨hms, hns⟩

end Value

namespace Yaml

/-! ## Nodes -/

namespace Reading

variable {α β : Type} {P : α → Prop} {Q : β → Prop} {x : Reading α} {y : Reading β}

/-- What reading gives, if it gives anything. -/
def Gives (P : α → Prop) (x : Reading α) : Prop :=
  ∀ a, x = .ok a → P a

theorem gives_ok {a : α} (h : P a) : Gives P (.ok a : Reading α) := by
  intro b hb
  cases hb
  exact h

/-- What fails gives nothing. -/
theorem gives_error (P : α → Prop) (f : LevelFault) : Gives P (.error f : Reading α) :=
  fun _ h => by cases h

/-- What is made of the outcome. -/
theorem Gives.map (h : Gives P x) {f : α → β} (hf : ∀ a, P a → Q (f a)) : Gives Q (x.map f) := by
  intro b hb
  obtain ⟨a, ha, rfl⟩ := Except.map_eq_ok_iff.mp hb
  exact hf a (h a ha)

theorem Gives.deeper (h : Gives P x) : Gives P x.deeper := by
  cases x with
  | ok a => exact h
  | error f => exact gives_error P _

/-- Two readings give both of their outcomes. -/
theorem Gives.both (hx : Gives P x) (hy : Gives Q y) :
    Gives (fun p : α × β => P p.1 ∧ Q p.2) (Reading.both x y) := by
  intro p hp
  -- a fault on either side leaves nothing to show
  cases x with
  | error e => cases y <;> cases hp
  | ok a =>
    cases y with
    | error e => cases hp
    | ok b =>
      cases hp
      exact ⟨hx a rfl, hy b rfl⟩

end Reading

namespace Node

open Reading Value

/-- What is taken over stands in front of what a mapping has of its own, and both are proper. -/
theorem Gives.joined {taken own : Reading (List (Scalar × Value))}
    (htaken : Gives ProperEntries taken) (hown : Gives ProperEntries own) :
    Gives ProperEntries (joined taken own) :=
  (htaken.both hown).map fun _ h => properEntries_append h.1 h.2

/-- From proper entries comes a proper mapping. -/
theorem Gives.checked {entries : Reading (List (Scalar × Value))} (h : Gives ProperEntries entries)
    (isMergeable : Bool) :
    Gives (fun ms => (Value.object ms).Proper) (checked isMergeable entries) := by
  refine Gives.deeper ?_
  split
  · exact h.map fun _ => proper_mappingOf
  · exact gives_error _ _

theorem gives_scalar (x : Except Fault Scalar) : Gives Proper ((Reading.ofExcept x).map .scalar) :=
  Gives.map (P := fun _ => True) (fun _ _ => trivial) fun _ _ => trivial

/-- A list is proper when its items are. -/
theorem gives_list {items : Reading (List Value)} (h : Gives ProperItems items) :
    Gives Proper (items.map .list) :=
  h.map fun _ h => h

mutual

/-- What a node denotes is proper, whatever its tag makes of it. -/
theorem proper_value : ∀ n : Node, Gives Proper n.value
  | .cycle isMapping => by
    rw [value]
    exact gives_ok trivial
  | .scalar tag t => by
    rw [value]
    split
    · exact (gives_error _ _).deeper
    · exact gives_scalar _
  | .sequence tag items => by
    rw [value.eq_def]
    dsimp only
    split
    · exact (gives_list (proper_values items)).deeper
    · exact (gives_list (proper_pairs items)).deeper
    · exact (gives_list (proper_pairs items)).deeper
    · exact (gives_error _ _).deeper
    · exact (gives_error _ _).deeper
    · exact gives_error _ _
  | .mapping tag es => by
    -- a mapping and a set are read alike, and may be taken for a scalar
    have hentries := Gives.checked (Gives.joined (proper_takenOver es) (proper_ownEntries es))
      (mergeable es)
    rw [value.eq_def]
    dsimp only
    split
    · exact hentries.map fun _ h => h
    · exact hentries.map fun _ _ => trivial
    · exact (gives_error _ _).deeper
    · exact (gives_error _ _).deeper
    · exact (gives_error _ _).deeper
    · split
      · exact gives_scalar _
      · exact gives_error _ _

theorem proper_values : ∀ items : List Node, Gives ProperItems (values items)
  | [] => by
    rw [values]
    exact gives_ok trivial
  | n :: rest => by
    rw [values]
    exact ((proper_value n).both (proper_values rest)).map fun _ h => h

/-- Items that are mappings of one entry are read as pairs. -/
theorem proper_pairs : ∀ items : List Node, Gives ProperItems (pairs items)
  | [] => by
    rw [pairs]
    exact gives_ok trivial
  | .mapping _ [(k, v)] :: rest => by
    rw [pairs]
    exact (((proper_value k).both (proper_value v)).both (proper_pairs rest)).map fun _ h => h
  -- an item that is no mapping of one entry is a fault
  | .scalar .. :: _ | .sequence .. :: _ | .cycle _ :: _ | .mapping _ [] :: _
  | .mapping _ (_ :: _ :: _) :: _ => by
    rw [pairs]
    · exact gives_error _ _
    all_goals simp

/-- The entries of a mapping that take nothing over from another one. -/
theorem proper_ownEntries : ∀ es : List (Node × Node), Gives ProperEntries (ownEntries es)
  | [] => by
    rw [ownEntries]
    exact gives_ok trivial
  | (k, v) :: rest => by
    rw [ownEntries]
    split
    · exact proper_ownEntries rest
    · have hkey : Gives (fun _ => True) k.key := fun _ _ => trivial
      exact ((hkey.both (proper_value v)).both (proper_ownEntries rest)).map
        fun _ h => ⟨h.1.2, h.2⟩

/-- Entries of this kind bring those of other mappings. -/
theorem proper_takenOver : ∀ es : List (Node × Node), Gives ProperEntries (takenOver es)
  | [] => by
    rw [takenOver]
    exact gives_ok trivial
  | (k, v) :: rest => by
    rw [takenOver]
    split
    · exact Gives.joined (proper_sourceEntries v) (proper_takenOver rest)
    · exact proper_takenOver rest

/-- What a mapping takes over comes from a mapping, or from a sequence of some. -/
theorem proper_sourceEntries : ∀ n : Node, Gives ProperEntries (sourceEntries n)
  | .mapping _ es => by
    rw [sourceEntries]
    exact Gives.joined (proper_takenOver es) (proper_ownEntries es)
  | .sequence _ items => by
    rw [sourceEntries]
    exact proper_sourceItems items
  | .scalar .. | .cycle _ => by
    rw [sourceEntries]
    · exact gives_ok trivial
    all_goals simp

/-- Of several mappings, the entries of the last one come first. -/
theorem proper_sourceItems : ∀ items : List Node, Gives ProperEntries (sourceItems items)
  | [] => by
    rw [sourceItems]
    exact gives_ok trivial
  | .mapping _ es :: rest => by
    rw [sourceItems]
    exact Gives.joined (proper_sourceItems rest)
      (Gives.joined (proper_takenOver es) (proper_ownEntries es))
  | .sequence .. :: rest | .scalar .. :: rest | .cycle _ :: rest => by
    rw [sourceItems]
    · exact proper_sourceItems rest
    all_goals simp

end

end Node

/-! ## Documents -/

/-- **No mapping in the value of a document repeats a key.** -/
theorem proper_load {cs : List Char} {v : Value} (h : load cs = .ok v) : v.Proper := by
  obtain ⟨root?, -, h⟩ := Except.bind_eq_ok_iff.mp h
  cases root? with
  | none =>
    cases h
    trivial
  | some root =>
    dsimp only at h
    -- a document without a root is null; with one, it is the value of the root
    split at h
    · next hvalue =>
      cases h
      exact Node.proper_value root _ hvalue
    · cases h

end Yaml

/-! ## Tables -/

/-- The mapping that a document holds is proper, and so is the empty one of a document without a value. -/
theorem DocumentKind.proper_of_mapping {kind : DocumentKind} {p : Path} {cs : List Char}
    {ms : List (Scalar × Value)} (h : kind.mapping p cs = .ok ms) : (Value.object ms).Proper := by
  rw [mapping] at h
  split at h
  · cases h
  · cases h
  · next hload =>
    cases h
    exact Yaml.proper_load hload
  · split at h
    · cases h
      exact ⟨List.nodup_nil, trivial⟩
    · cases h

namespace Action

theorem keeps_readText (p : Path) : Keeps id (readText p) := by
  refine (keeps_look _).bind fun content => ?_
  split
  · exact keeps_pure _
  · exact keeps_throw _

end Action

/-- Loading a document changes nothing. -/
theorem DocumentKind.keeps_load (kind : DocumentKind) (p : Path) : Keeps id (kind.load p) := by
  refine (Action.keeps_readText p).bind fun cs => ?_
  split
  · exact keeps_pure _
  · exact keeps_throw _

namespace PatchTable

/-- Nor does loading a patch table. -/
theorem keeps_load (path : Option Text) : Keeps id (load path) := by
  rw [load]
  split
  · exact keeps_pure _
  · refine (Action.keeps_look _).bind fun isThere => ?_
    split
    · refine (DocumentKind.keeps_load _ _).bind fun ms => ?_
      split
      · exact keeps_pure _
      · exact keeps_throw _
      · exact keeps_throw _
    · exact keeps_throw _

/-- **Every patch table that is loaded is well formed.** -/
theorem wellFormed_of_load {path : Option Text} {t : PatchTable} {w w' : World}
    (h : perform (load path) w = (.ok t, w')) : t.WellFormed := by
  rw [load] at h
  -- the built-in table, or one that was read from a file
  split at h
  · cases h
    exact wellFormed_phoenix
  · obtain ⟨isThere, w₁, -, h⟩ := perform_bind_eq_ok_iff.mp h
    split at h
    · obtain ⟨ms, w₂, hms, h⟩ := perform_bind_eq_ok_iff.mp h
      obtain ⟨cs, w₃, -, hms⟩ := perform_bind_eq_ok_iff.mp hms
      split at hms
      · next hmapping =>
        cases hms
        split at h
        · next htable =>
          cases h
          exact wellFormed_of_ofValue (DocumentKind.proper_of_mapping hmapping) htable
        · cases h
        · cases h
      · cases hms
    · cases h

end PatchTable

end SchemaGraft
