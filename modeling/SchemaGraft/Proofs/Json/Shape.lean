import SchemaGraft.Json.Reader
import SchemaGraft.Proofs.Json.Members
import SchemaGraft.Proofs.Text.Encoding

/-!
# Shape of JSON Values

Induction over JSON values, properties that hold at every place inside a value, and the sorted form,
which forgets the order of members.

## Architecture

- **Induction**: `Json.structural` has one case for each kind of value.
- **Traversal**: `Json.rebuild` changes scalars and member lists from the inside out; `Json.sorted` is
  an instance of it.
- **Properties**: `Json.Everywhere` for scalars and lists of names, `Json.Within` for the depth.
- **Settled values**: `Json.Settled` values come back from their text as they were.
- **Sorted form**: two values with the same sorted form have the same scalars, items and members.
-/

namespace SchemaGraft.Json

/-! ## Induction -/

/-- Induction over a value, its items and the values of its members. -/
@[elab_as_elim, induction_eliminator]
theorem structural {motive : Json → Prop} (null : motive .null) (bool : ∀ b, motive (.bool b))
    (int : ∀ n, motive (.int n)) (float : ∀ x, motive (.float x)) (text : ∀ t, motive (.text t))
    (list : ∀ items, (∀ v ∈ items, motive v) → motive (.list items))
    (object : ∀ ms, (∀ m ∈ ms, motive m.2) → motive (.object ms)) (v : Json) : motive v :=
  match v with
  | .null => null
  | .bool b => bool b
  | .int n => int n
  | .float x => float x
  | .text t => text t
  | .list items => list items fun v _ => structural null bool int float text list object v
  | .object ms => object ms fun m _ => structural null bool int float text list object m.2
termination_by v
decreasing_by
  all_goals simp_wf
  · have := List.sizeOf_lt_of_mem ‹_ ∈ items›
    omega
  · have := List.sizeOf_lt_of_mem ‹_ ∈ ms›
    have : sizeOf m.2 < sizeOf m := by cases m; simp
    omega

/-- Does the value have no parts? -/
def isScalar : Json → Bool
  | .list _ | .object _ => false
  | _ => true

/-! ## Traversal -/

mutual

/-- A value with new scalars and new members, built from the inside out. -/
def rebuild (leaf : Json → Json) (node : List (Text × Json) → List (Text × Json)) : Json → Json
  | .list items => .list (rebuildItems leaf node items)
  | .object ms => .object (node (rebuildMembers leaf node ms))
  | v => leaf v

/-- `rebuild` on the items of a list. -/
def rebuildItems (leaf : Json → Json) (node : List (Text × Json) → List (Text × Json)) :
    List Json → List Json
  | [] => []
  | v :: rest => rebuild leaf node v :: rebuildItems leaf node rest

/-- `rebuild` on the values of members. -/
def rebuildMembers (leaf : Json → Json) (node : List (Text × Json) → List (Text × Json)) :
    List (Text × Json) → List (Text × Json)
  | [] => []
  | (n, v) :: rest => (n, rebuild leaf node v) :: rebuildMembers leaf node rest

end

section

variable {leaf leaf' : Json → Json} {node node' : List (Text × Json) → List (Text × Json)}

@[simp] theorem rebuild_list (items : List Json) :
    rebuild leaf node (.list items) = .list (items.map (rebuild leaf node)) := by
  rw [rebuild]
  congr 1
  induction items with
  | nil => rfl
  | cons v rest ih => rw [rebuildItems, ih, List.map_cons]

@[simp] theorem rebuild_object (ms : List (Text × Json)) :
    rebuild leaf node (.object ms) = .object (node (mapValues (rebuild leaf node) ms)) := by
  rw [rebuild]
  congr 2
  induction ms with
  | nil => rfl
  | cons m rest ih => rw [rebuildMembers, ih, mapValues_cons]

/-- A scalar has no parts to be built first. -/
theorem rebuild_scalar {v : Json} (h : v.isScalar = true) : rebuild leaf node v = leaf v := by
  cases v <;> first | rfl | cases h

end

/-! ## Properties of All Parts -/

mutual

/-- Does `leaf` hold for every scalar of a value, and `node` for the names of every object? -/
def Everywhere (leaf : Json → Prop) (node : List Text → Prop) : Json → Prop
  | .list items => EverywhereInItems leaf node items
  | .object ms => node (names ms) ∧ EverywhereInMembers leaf node ms
  | v => leaf v

/-- `Everywhere` for the items of a list. -/
def EverywhereInItems (leaf : Json → Prop) (node : List Text → Prop) : List Json → Prop
  | [] => True
  | v :: rest => Everywhere leaf node v ∧ EverywhereInItems leaf node rest

/-- `Everywhere` for the values of members. -/
def EverywhereInMembers (leaf : Json → Prop) (node : List Text → Prop) :
    List (Text × Json) → Prop
  | [] => True
  | (_, v) :: rest => Everywhere leaf node v ∧ EverywhereInMembers leaf node rest

end

section

variable {leaf leaf' : Json → Prop} {node node' : List Text → Prop}

@[simp] theorem everywhere_list {items : List Json} :
    Everywhere leaf node (.list items) ↔ ∀ v ∈ items, Everywhere leaf node v := by
  rw [Everywhere]
  induction items with
  | nil => simp [EverywhereInItems]
  | cons v rest ih => rw [EverywhereInItems, ih, List.forall_mem_cons]

@[simp] theorem everywhere_object {ms : List (Text × Json)} :
    Everywhere leaf node (.object ms) ↔ node (names ms) ∧ ∀ m ∈ ms, Everywhere leaf node m.2 := by
  rw [Everywhere]
  apply and_congr_right'
  induction ms with
  | nil => simp [EverywhereInMembers]
  | cons m rest ih => rw [EverywhereInMembers, ih, List.forall_mem_cons]

/-- A scalar has no parts but itself. -/
theorem everywhere_scalar {v : Json} (h : v.isScalar = true) :
    Everywhere leaf node v ↔ leaf v := by
  cases v <;> first | exact Iff.rfl | cases h

/-- A member of an object has the properties of all its parts. -/
theorem Everywhere.lookup {ms : List (Text × Json)} {name : Text} {v : Json}
    (h : Everywhere leaf node (.object ms)) (hv : Json.lookup name ms = some v) :
    Everywhere leaf node v :=
  (everywhere_object.mp h).2 _ (mem_of_lookup hv)

/-- Weaker properties hold everywhere as well. -/
theorem Everywhere.imp (hleaf : ∀ v, leaf v → leaf' v) (hnode : ∀ ns, node ns → node' ns) {v : Json}
    (h : Everywhere leaf node v) : Everywhere leaf' node' v := by
  induction v with
  | list items ih =>
    exact everywhere_list.mpr fun v hv => ih v hv (everywhere_list.mp h v hv)
  | object ms ih =>
    obtain ⟨hnames, hms⟩ := everywhere_object.mp h
    exact everywhere_object.mpr ⟨hnode _ hnames, fun m hm => ih m hm (hms m hm)⟩
  | _ => exact hleaf _ h

end

/-- No object repeats a name. -/
def Proper : Json → Prop :=
  Everywhere (fun _ => True) List.Nodup

/-- No name holds a lone surrogate. -/
def NamesEncodable : Json → Prop :=
  Everywhere (fun _ => True) fun ns => ∀ n ∈ ns, Text.Encodable n

/-- No string that is a value holds a lone surrogate. -/
def TextsEncodable : Json → Prop :=
  Everywhere (fun | .text t => t.Encodable | _ => True) fun _ => True

/-- Every floating-point number has a finite value. -/
def Finite : Json → Prop :=
  Everywhere (fun | .float x => x.isFinite = true | _ => True) fun _ => True

/-- No integer has more digits than can be read. -/
def Moderate : Json → Prop :=
  Everywhere (fun | .int n => n.natAbs < 10 ^ maxIntegerDigits | _ => True) fun _ => True

theorem moderate_int {n : ℤ} : Moderate (.int n) ↔ n.natAbs < 10 ^ maxIntegerDigits := Iff.rfl

/-! ## Depth -/

/-- Are at most `depth` lists and objects open at every place? -/
def Within : ℕ → Json → Prop
  | 0, v => v.isScalar = true
  | depth + 1, .list items => ∀ v ∈ items, Within depth v
  | depth + 1, .object ms => ∀ m ∈ ms, Within depth m.2
  | _ + 1, _ => True

/-- Nothing is open at a scalar. -/
theorem within_scalar {v : Json} (h : v.isScalar = true) (depth : ℕ) : Within depth v := by
  cases depth with
  | zero => exact h
  | succ depth => cases v <;> trivial

/-- A greater depth allows for more. -/
theorem Within.mono {depth depth' : ℕ} (hle : depth ≤ depth') {v : Json} (h : Within depth v) :
    Within depth' v := by
  induction v generalizing depth depth' with
  | list items ih =>
    -- a list needs a depth of at least one, and its items have one less
    cases depth with
    | zero => simp [Within, isScalar] at h
    | succ depth =>
      cases depth' with
      | zero => omega
      | succ depth' => exact fun v hv => ih v hv (by omega) (h v hv)
  | object ms ih =>
    cases depth with
    | zero => simp [Within, isScalar] at h
    | succ depth =>
      cases depth' with
      | zero => omega
      | succ depth' => exact fun m hm => ih m hm (by omega) (h m hm)
  | _ => exact within_scalar rfl depth'

/-! ## Sorted Form -/

/-- Items are sorted inside, and keep their order. -/
theorem sortedItems_eq (items : List Json) : sortedItems items = items.map sorted := by
  induction items with
  | nil => rfl
  | cons v rest ih => rw [sortedItems, ih, List.map_cons]

/-- Values of members are sorted inside, before the members are. -/
theorem sortedMembers_eq (ms : List (Text × Json)) : sortedMembers ms = mapValues sorted ms := by
  induction ms with
  | nil => rfl
  | cons m rest ih => rw [sortedMembers, ih, mapValues_cons]

@[simp] theorem sorted_list (items : List Json) :
    (list items).sorted = .list (items.map sorted) := by
  rw [sorted, sortedItems_eq]

@[simp] theorem sorted_object (ms : List (Text × Json)) :
    (object ms).sorted = .object (byName (mapValues sorted ms)) := by
  rw [sorted, sortedMembers_eq, byName]

@[simp] theorem sorted_scalar {v : Json} (h : v.isScalar = true) : v.sorted = v := by
  cases v <;> first | rfl | cases h

@[simp] theorem isScalar_sorted (v : Json) : v.sorted.isScalar = v.isScalar := by
  cases v <;> rfl

/-- Sorting twice is sorting once. -/
@[simp] theorem sorted_sorted (v : Json) : v.sorted.sorted = v.sorted := by
  induction v with
  | list items ih =>
    rw [sorted_list, sorted_list, List.map_map]
    exact congrArg _ (List.map_congr_left ih)
  | object ms ih =>
    rw [sorted_object, sorted_object, mapValues_byName, byName_byName, mapValues_mapValues]
    exact congrArg _ (congrArg _ (mapValues_congr ih))
  | _ => rfl

/-- Objects of the same members have the same sorted form. -/
theorem sorted_object_of_perm {ms ns : List (Text × Json)} (hnodup : (names ms).Nodup)
    (h : (mapValues sorted ms).Perm (mapValues sorted ns)) :
    (object ms).sorted = (object ns).sorted := by
  rw [sorted_object, sorted_object, byName_eq_of_perm (by rwa [names_mapValues]) h]

/-- What has the sorted form of a list is a list. -/
theorem eq_list_of_sorted {items : List Json} {v : Json} (h : (list items).sorted = v.sorted) :
    ∃ items', v = .list items' ∧ items.map sorted = items'.map sorted := by
  cases v with
  | list items' => exact ⟨items', rfl, by simpa using h⟩
  | object ns => simp at h
  | _ => rw [sorted_list, sorted_scalar rfl] at h; cases h

/-- What has the sorted form of an object is an object of the same members. -/
theorem eq_object_of_sorted {ms : List (Text × Json)} {v : Json}
    (h : (object ms).sorted = v.sorted) :
    ∃ ns, v = .object ns ∧ (mapValues sorted ms).Perm (mapValues sorted ns) := by
  cases v with
  | list items' => simp at h
  | object ns =>
    rw [sorted_object, sorted_object] at h
    exact ⟨ns, rfl, perm_of_byName_eq (Json.object.inj h)⟩
  | _ => rw [sorted_object, sorted_scalar rfl] at h; cases h

/-- What has the sorted form of a scalar is that scalar. -/
theorem eq_of_sorted_scalar {u v : Json} (hu : u.isScalar = true) (h : u.sorted = v.sorted) :
    v = u := by
  have hv : v.isScalar = true := by rw [← isScalar_sorted, ← h, isScalar_sorted, hu]
  rw [sorted_scalar hu, sorted_scalar hv] at h
  exact h.symm

/-- Values with the same sorted form are the same scalar, lists of the same items, or objects of the same
members. -/
theorem sorted_eq_cases {u v : Json} (h : u.sorted = v.sorted) :
    u.isScalar = true ∧ v = u ∨
      (∃ items items', u = .list items ∧ v = .list items' ∧ items.map sorted = items'.map sorted) ∨
      ∃ ms ns, u = .object ms ∧ v = .object ns ∧
        (mapValues sorted ms).Perm (mapValues sorted ns) := by
  cases u with
  | list items =>
    obtain ⟨items', rfl, hitems⟩ := eq_list_of_sorted h
    exact .inr (.inl ⟨items, items', rfl, rfl, hitems⟩)
  | object ms =>
    obtain ⟨ns, rfl, hperm⟩ := eq_object_of_sorted h
    exact .inr (.inr ⟨ms, ns, rfl, rfl, hperm⟩)
  | _ => exact .inl ⟨rfl, eq_of_sorted_scalar rfl h⟩

/-- The items of lists with the same sorted form have the same sorted form, one by one. -/
theorem forall₂_of_map_sorted {P : Json → Prop} {us vs : List Json}
    (h : us.map sorted = vs.map sorted) (hus : ∀ u ∈ us, P u) :
    List.Forall₂ (fun u v => P u ∧ u.sorted = v.sorted) us vs := by
  -- on the first list; the second one is as long
  induction us generalizing vs with
  | nil =>
    rw [List.map_eq_nil_iff.mp h.symm]
    exact .nil
  | cons u us ih =>
    cases vs with
    | nil => cases h
    | cons v vs =>
      obtain ⟨hu, hus⟩ := List.forall_mem_cons.mp hus
      obtain ⟨huv, husvs⟩ := List.cons.inj h
      exact .cons ⟨hu, huv⟩ (ih husvs hus)

/-- In objects with the same sorted members, look-up finds values with the same sorted form. -/
theorem lookup_sorted {ms ns : List (Text × Json)} (hnodup : (names ms).Nodup)
    (h : (mapValues sorted ms).Perm (mapValues sorted ns)) (name : Text) :
    (lookup name ms).map sorted = (lookup name ns).map sorted := by
  rw [← lookup_mapValues, ← lookup_mapValues, lookup_perm (by rwa [names_mapValues]) h]

/-- In such objects, a member of one has a partner of the same name in the other. -/
theorem lookup_rel_of_sorted {P : Json → Prop} {ms ns : List (Text × Json)}
    (hnodup : (names ms).Nodup) (h : (mapValues sorted ms).Perm (mapValues sorted ns)) (name : Text)
    (hP : ∀ u, lookup name ms = some u → P u) :
    Option.Rel (fun u v => P u ∧ u.sorted = v.sorted) (lookup name ms) (lookup name ns) := by
  -- the sorted values are the same, and the order of members does not matter to look-up
  have hsorted := lookup_sorted hnodup h name
  cases hu : lookup name ms with
  | none =>
    rw [hu, Option.map_none, eq_comm, Option.map_eq_none_iff] at hsorted
    rw [hsorted]
    exact .none
  | some u =>
    rw [hu, Option.map_some, eq_comm, Option.map_eq_some_iff] at hsorted
    obtain ⟨v, hv, huv⟩ := hsorted
    rw [hv]
    exact .some ⟨hP u hu, huv.symm⟩

/-- Objects with the same members up to the order inside have the same names. -/
theorem names_perm_of_sorted {ms ns : List (Text × Json)}
    (h : (mapValues sorted ms).Perm (mapValues sorted ns)) : (names ms).Perm (names ns) := by
  have := h.map Prod.fst
  rwa [← names, ← names, names_mapValues, names_mapValues] at this

/-- What holds everywhere in a value holds in its sorted form, and conversely. -/
theorem everywhere_sorted {leaf : Json → Prop} {node : List Text → Prop}
    (hnode : ∀ ms ns : List Text, ms.Perm ns → (node ms ↔ node ns)) (v : Json) :
    Everywhere leaf node v.sorted ↔ Everywhere leaf node v := by
  -- on the document: a mapping has the same members after sorting, in another order
  induction v with
  | list items ih =>
    rw [sorted_list, everywhere_list, everywhere_list, List.forall_mem_map]
    exact forall₂_congr ih
  | object ms ih =>
    rw [sorted_object, everywhere_object, everywhere_object,
      hnode _ _ (names_byName_perm _), names_mapValues]
    refine and_congr_right fun _ => ?_
    rw [← forall₂_congr ih]
    simp only [(byName_perm _).mem_iff, mapValues, List.forall_mem_map]
  | _ => exact Iff.rfl

/-- Sorting neither makes nor removes a repeated name. -/
theorem proper_sorted {v : Json} : v.sorted.Proper ↔ v.Proper :=
  everywhere_sorted (fun _ _ h => h.nodup_iff) v

theorem namesEncodable_sorted {v : Json} : v.sorted.NamesEncodable ↔ v.NamesEncodable := by
  apply everywhere_sorted
  intro ms ns h
  simp only [h.mem_iff]

theorem textsEncodable_sorted {v : Json} : v.sorted.TextsEncodable ↔ v.TextsEncodable :=
  everywhere_sorted (fun _ _ _ => Iff.rfl) v

theorem finite_sorted {v : Json} : v.sorted.Finite ↔ v.Finite :=
  everywhere_sorted (fun _ _ _ => Iff.rfl) v

theorem moderate_sorted {v : Json} : v.sorted.Moderate ↔ v.Moderate :=
  everywhere_sorted (fun _ _ _ => Iff.rfl) v

/-- Sorting does not change the depth. -/
theorem within_sorted {depth : ℕ} {v : Json} : Within depth v.sorted ↔ Within depth v := by
  induction v generalizing depth with
  | list items ih =>
    cases depth with
    | zero => rw [sorted_list]; rfl
    | succ depth =>
      rw [sorted_list, Within, Within, List.forall_mem_map]
      exact forall₂_congr fun v hv => ih v hv
  | object ms ih =>
    cases depth with
    | zero => rw [sorted_object]; rfl
    | succ depth =>
      rw [sorted_object, Within, Within]
      simp only [(byName_perm _).mem_iff, mapValues, List.forall_mem_map]
      exact forall₂_congr fun m hm => ih m hm
  | _ => exact Iff.rfl

/-! ## Settled Values -/

/-- A value that writing does not change: every name and every number has a written form of its own. -/
structure Settled (v : Json) : Prop where
  /-- No object repeats a name. -/
  proper : v.Proper
  /-- Names can be encoded. -/
  names : v.NamesEncodable
  /-- Integers are not too long to be read. -/
  moderate : v.Moderate
  /-- Floating-point numbers are finite. -/
  finite : v.Finite

/-- A list is settled when its items are. -/
theorem settled_list {items : List Json} :
    Settled (.list items) ↔ ∀ v ∈ items, Settled v := by
  constructor
  · intro h v hv
    exact ⟨everywhere_list.mp h.proper v hv, everywhere_list.mp h.names v hv,
      everywhere_list.mp h.moderate v hv, everywhere_list.mp h.finite v hv⟩
  · intro h
    exact ⟨everywhere_list.mpr fun v hv => (h v hv).proper,
      everywhere_list.mpr fun v hv => (h v hv).names,
      everywhere_list.mpr fun v hv => (h v hv).moderate,
      everywhere_list.mpr fun v hv => (h v hv).finite⟩

/-- An object is settled when its names are and its values are. -/
theorem settled_object {ms : List (Text × Json)} :
    Settled (.object ms) ↔
      (Json.names ms).Nodup ∧ (∀ n ∈ Json.names ms, n.Encodable) ∧ ∀ m ∈ ms, Settled m.2 := by
  -- each of the four properties is one of all parts
  constructor
  · intro h
    obtain ⟨hnodup, hproper⟩ := everywhere_object.mp h.proper
    obtain ⟨hnames, hencodable⟩ := everywhere_object.mp h.names
    exact ⟨hnodup, hnames, fun m hm => ⟨hproper m hm, hencodable m hm,
      (everywhere_object.mp h.moderate).2 m hm, (everywhere_object.mp h.finite).2 m hm⟩⟩
  · rintro ⟨hnodup, hnames, h⟩
    exact ⟨everywhere_object.mpr ⟨hnodup, fun m hm => (h m hm).proper⟩,
      everywhere_object.mpr ⟨hnames, fun m hm => (h m hm).names⟩,
      everywhere_object.mpr ⟨trivial, fun m hm => (h m hm).moderate⟩,
      everywhere_object.mpr ⟨trivial, fun m hm => (h m hm).finite⟩⟩

/-- A text has nothing that could have to be settled. -/
theorem settled_text (t : Text) : Settled (.text t) :=
  ⟨trivial, trivial, trivial, trivial⟩

/-- What holds of all names that can be encoded and do not repeat holds of those of a settled value. -/
theorem Settled.everywhere {node : List Text → Prop}
    (hnode : ∀ ns : List Text, ns.Nodup → (∀ n ∈ ns, n.Encodable) → node ns) {v : Json}
    (h : v.Settled) : Everywhere (fun _ => True) node v := by
  induction v with
  | list items ih =>
    exact everywhere_list.mpr fun u hu => ih u hu (settled_list.mp h u hu)
  | object ms ih =>
    obtain ⟨hnodup, hnames, hms⟩ := settled_object.mp h
    exact everywhere_object.mpr ⟨hnode _ hnodup hnames, fun m hm => ih m hm (hms m hm)⟩
  | _ => trivial

theorem Settled.sorted {v : Json} (h : v.Settled) : v.sorted.Settled where
  proper := proper_sorted.mpr h.proper
  names := namesEncodable_sorted.mpr h.names
  moderate := moderate_sorted.mpr h.moderate
  finite := finite_sorted.mpr h.finite

end SchemaGraft.Json
