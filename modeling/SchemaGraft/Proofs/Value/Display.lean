import SchemaGraft.Proofs.Value.Spelling
import SchemaGraft.Value.Display

/-!
# Values That Can Be Shown

A message cannot show a value with an integer of too many digits.  Documents and forms hold no such integers,
and neither does a value that is the same as one of a document.

## Architecture

- **Parts**: `Value.printableItems_iff` and `Value.printableMembers_iff`.
- **Forms**: `Value.isPrintable_of_plainWithin`; what can be written can be shown.
- **Documents**: `Value.isPrintable_ofJson`, and `Value.isPrintable_of_same` for what is the same as a document.
- **Order**: `Value.isPrintable_ordered`.
-/

namespace SchemaGraft

open Json (names mapValues)

/-! ## Parts -/

namespace Value

theorem printableItems_iff {items : List Value} :
    printableItems items = true ↔ ∀ v ∈ items, v.isPrintable = true := by
  induction items with
  | nil => simp [printableItems]
  | cons v rest ih => rw [printableItems, Bool.and_eq_true, ih, List.forall_mem_cons]

theorem printableMembers_iff {ms : List (Scalar × Value)} :
    printableMembers ms = true ↔ ∀ m ∈ ms, m.1.isPrintable = true ∧ m.2.isPrintable = true := by
  induction ms with
  | nil => simp [printableMembers]
  | cons m rest ih =>
    obtain ⟨k, v⟩ := m
    rw [printableMembers, Bool.and_eq_true, Bool.and_eq_true, ih, List.forall_mem_cons]

end Value

/-! ## Forms -/

namespace Scalar

theorem isPrintable_of_plain {s : Scalar} {j : Json} (h : s.plain = .ok j) : s.isPrintable = true := by
  cases s with
  | int n =>
    simp only [plain] at h
    simp only [isPrintable, decide_eq_true_eq]
    -- the power is not to be computed
    generalize Nat.pow 10 Json.maxIntegerDigits = k at h ⊢
    split at h
    · cases h
    · omega
  | _ => rfl

theorem isPrintable_of_memberName {s : Scalar} {t : Text} (h : s.memberName = .ok t) :
    s.isPrintable = true := by
  cases s with
  | int n =>
    simp only [memberName] at h
    simp only [isPrintable, decide_eq_true_eq]
    generalize Nat.pow 10 Json.maxIntegerDigits = k at h ⊢
    split at h
    · cases h
    · omega
  | _ => rfl

end Scalar

namespace Value

/-- A value with a JSON form can be shown. -/
theorem isPrintable_of_plainWithin {depth : ℕ} {v : Value} {j : Json}
    (h : plainWithin depth v = .ok j) : v.isPrintable = true := by
  -- on the depth: the parts of a value are written one level deeper
  induction depth generalizing v j with
  | zero => simp [plainWithin] at h
  | succ depth ih =>
    cases v with
    | scalar s => exact Scalar.isPrintable_of_plain h
    | list items =>
      obtain ⟨js, hjs, -⟩ := plainWithin_list.mp h
      rw [isPrintable, printableItems_iff]
      intro v hv
      obtain ⟨j, hj⟩ := Except.exists_mapM_iff.mp ⟨js, hjs⟩ v hv
      exact ih hj
    | pair a b =>
      simp only [plainWithin, Except.bind_eq_ok_iff] at h
      obtain ⟨ja, ha, jb, hb, -⟩ := h
      rw [isPrintable, ih ha, ih hb, Bool.and_self]
    | set members =>
      rw [plainWithin] at h
      split at h
      · cases h
      · obtain ⟨js, hjs, -⟩ := Except.bind_pure_eq_ok_iff.mp h
        rw [isPrintable, List.all_eq_true]
        intro s hs
        obtain ⟨j, hj⟩ := Except.exists_mapM_iff.mp ⟨js, hjs⟩ s hs
        exact Scalar.isPrintable_of_plain hj
    | object ms =>
      obtain ⟨ps, hps, -⟩ := plainWithin_object.mp h
      rw [isPrintable, printableMembers_iff]
      intro m hm
      obtain ⟨r, hr⟩ := Except.exists_mapM_iff.mp ⟨ps, hps⟩ m hm
      obtain ⟨hname, hvalue⟩ := plainEntry_eq_ok_iff.mp hr
      exact ⟨Scalar.isPrintable_of_memberName hname, ih hvalue⟩
    | cycle isObject => rfl

/-! ## Documents -/

/-- An integer can be shown if it has few enough digits. -/
theorem isPrintable_int_iff {n : ℤ} :
    (Scalar.int n).isPrintable = true ↔ n.natAbs < 10 ^ Json.maxIntegerDigits := by
  rw [Scalar.isPrintable, decide_eq_true_eq]
  -- the power is not to be computed
  generalize Json.maxIntegerDigits = k
  exact Iff.rfl

/-- The values of a document can be shown. -/
theorem isPrintable_ofJson {v : Json} (h : v.Moderate) : (ofJson v).isPrintable = true := by
  -- on the document: an integer it holds is one that could be read
  induction v with
  | int n => exact isPrintable_int_iff.mpr (Json.moderate_int.mp h)
  | list items ih =>
    rw [ofJson_list, isPrintable, printableItems_iff, List.forall_mem_map]
    exact fun v hv => ih v hv (Json.everywhere_list.mp h v hv)
  | object ms ih =>
    rw [ofJson_object, isPrintable, printableMembers_iff, TypeRef.entries, mapValues, List.map_map,
      List.forall_mem_map]
    exact fun m hm => ⟨rfl, ih m hm ((Json.everywhere_object.mp h).2 m hm)⟩
  | _ => rfl

/-- An integer that a floating-point number has as its value is not greater than the greatest of these. -/
theorem natAbs_lt_of_toInt? {x : Binary64} {n : ℤ} (h : x.toInt? = some n) {k : ℕ} (hk : 53 + 971 ≤ k) :
    n.natAbs < 2 ^ k := by
  cases x with
  | finite negative m e fits =>
    have hm := fits.1
    have he := fits.2.2.1
    -- an integer that is a float is at most the mantissa times the power of two
    have hn : n.natAbs ≤ m * Binary64.twoPow e := by
      have hquotient := Nat.div_le_self (m * Binary64.twoPow e) (Binary64.twoPow (-e))
      obtain ⟨-, hvalue⟩ := Option.ite_none_right_eq_some.mp h
      cases hvalue
      cases negative
      · exact hquotient
      · exact (Int.natAbs_neg _).trans_le hquotient
    -- 53 bits for the mantissa, 971 for the exponent
    obtain ⟨l, rfl⟩ := Nat.exists_eq_add_of_le (le_trans (Nat.le_add_right 53 971) hk)
    have hexponent : Binary64.twoPow e ≤ 2 ^ l := by
      rw [Binary64.maxExponent] at he
      exact Nat.pow_le_pow_right (by decide) (by omega)
    have hmantissa : m < 2 ^ 53 := lt_of_lt_of_eq hm (by norm_num)
    rw [Nat.pow_add]
    exact lt_of_le_of_lt (hn.trans (Nat.mul_le_mul_left m hexponent))
      (Nat.mul_lt_mul_of_pos_right hmantissa (Nat.two_pow_pos l))
  | _ => cases h

/-- What is the same as a scalar that can be shown can be shown. -/
theorem isPrintable_of_same_scalar {s t : Scalar} (hs : s.isPrintable = true) (h : s.same t = true) :
    t.isPrintable = true := by
  cases t with
  | int n =>
    -- the largest float has 1024 bits, fewer than any number with too many digits
    have hdigits : 1024 ≤ Json.maxIntegerDigits := by decide
    rw [isPrintable_int_iff]
    cases s with
    | int m =>
      rw [isPrintable_int_iff] at hs
      simp only [Scalar.same, Scalar.toInt?, Option.isSome_some, Bool.true_and, beq_iff_eq,
        Option.some.injEq] at h
      rwa [← h]
    | bool b =>
      simp only [Scalar.same, Scalar.toInt?, Option.isSome_some, Bool.true_and, beq_iff_eq,
        Option.some.injEq] at h
      have hone : n.natAbs ≤ 1 := by cases b <;> simp [← h]
      exact lt_of_le_of_lt hone (Nat.one_lt_pow (by omega) (by decide))
    | float x =>
      simp only [Scalar.same, Scalar.toInt?, Bool.and_eq_true, beq_iff_eq] at h
      exact lt_of_lt_of_le (natAbs_lt_of_toInt? h.2 hdigits) (Nat.pow_le_pow_left (by decide) _)
    | _ => simp [Scalar.same, Scalar.toInt?] at h
  | _ => rfl

/-- Look-up of a text finds an entry with that key. -/
theorem mem_of_lookup_text {t : Text} {ns : List (Scalar × Value)} {w : Value}
    (h : (Scalar.text t).lookup ns = some w) : (.text t, w) ∈ ns := by
  induction ns with
  | nil => cases h
  | cons n rest ih =>
    obtain ⟨k, v⟩ := n
    rw [Scalar.lookup] at h
    split at h
    · next hkey =>
      cases h
      -- only a text is the same as a text
      cases k with
      | text k =>
        rw [Scalar.same, beq_iff_eq] at hkey
        rw [hkey]
        exact List.mem_cons_self ..
      | float x =>
        simp only [Scalar.same, Scalar.toInt?, Bool.and_eq_true, beq_iff_eq] at hkey
        obtain ⟨hsome, hnone⟩ := hkey
        rw [hnone] at hsome
        cases hsome
      | _ => simp [Scalar.same, Scalar.toInt?] at hkey
    · exact List.mem_cons_of_mem _ (ih h)

/-- A mapping that is the same as one of a document has no other entries than those that the document has,
as its keys are all used up. -/
theorem exists_lookup_of_same {ms : List (Text × Json)} {ns : List (Scalar × Value)}
    (hnodup : (names ms).Nodup) (h : (ofJson (.object ms)).same (.object ns) = true)
    {n : Scalar × Value} (hn : n ∈ ns) : ∃ m ∈ ms, n.1 = .text m.1 ∧ (ofJson m.2).same n.2 = true := by
  rw [ofJson_object, same, Bool.and_eq_true, beq_iff_eq, sameMembers_eq_all, List.all_eq_true,
    TypeRef.entries, mapValues, List.map_map, List.length_map, List.forall_mem_map] at h
  obtain ⟨hlength, hvalues⟩ := h
  have hpartner (m : Text × Json) (hm : m ∈ ms) :
      ∃ w, (.text m.1, w) ∈ ns ∧ (ofJson m.2).same w = true := by
    obtain ⟨w, hw, hsame⟩ := Option.any_eq_true _ _ |>.mp (hvalues m hm)
    exact ⟨w, mem_of_lookup_text hw, hsame⟩
  -- as many keys as entries, and all different
  have hkeys : ((names ms).map Scalar.text).Perm (ns.map (·.1)) := by
    have hnodup' : ((names ms).map Scalar.text).Nodup := hnodup.map fun _ _ => Scalar.text.inj
    refine (List.subperm_of_subset hnodup' fun k hk => ?_).perm_of_length_le (by simp [names, hlength])
    obtain ⟨t, ht, rfl⟩ := List.mem_map.mp hk
    obtain ⟨m, hm, rfl⟩ := List.mem_map.mp ht
    obtain ⟨w, hw, -⟩ := hpartner m hm
    exact List.mem_map_of_mem hw
  obtain ⟨t, ht, hkey⟩ := List.mem_map.mp (hkeys.symm.subset (List.mem_map_of_mem hn))
  obtain ⟨m, hm, rfl⟩ := List.mem_map.mp ht
  obtain ⟨w, hw, hsame⟩ := hpartner m hm
  have hns : (ns.map (·.1)).Nodup :=
    hkeys.nodup_iff.mp (hnodup.map fun _ _ => Scalar.text.inj)
  cases List.inj_on_of_nodup_map hns hw hn hkey
  exact ⟨m, hm, rfl, hsame⟩

/-- **What is the same as a value of a document can be shown**, though it need not come from one. -/
theorem isPrintable_of_same {u : Json} (hproper : u.Proper) (hmoderate : u.Moderate) {v : Value}
    (h : (ofJson u).same v = true) : v.isPrintable = true := by
  induction u generalizing v with
  | list items ih =>
    cases v with
    | list items' =>
      rw [ofJson_list, same] at h
      rw [isPrintable, printableItems_iff]
      -- item by item, next to the induction on the value
      induction items generalizing items' with
      | nil =>
        cases items' with
        | nil => simp
        | cons v' rest' => cases h
      | cons u rest ihl =>
        cases items' with
        | nil => simp
        | cons v' rest' =>
          rw [List.map_cons, sameItems, Bool.and_eq_true] at h
          obtain ⟨hp, hps⟩ := List.forall_mem_cons.mp (Json.everywhere_list.mp hproper)
          obtain ⟨hm, hms⟩ := List.forall_mem_cons.mp (Json.everywhere_list.mp hmoderate)
          refine List.forall_mem_cons.mpr ⟨ih u (List.mem_cons_self ..) hp hm h.1, ?_⟩
          exact ihl (fun w hw => ih w (List.mem_cons_of_mem _ hw)) (Json.everywhere_list.mpr hps)
            (Json.everywhere_list.mpr hms) rest' h.2
    | _ => simp [same] at h
  | object ms ih =>
    cases v with
    | object ns =>
      rw [isPrintable, printableMembers_iff]
      intro n hn
      obtain ⟨m, hm, hkey, hsame⟩ :=
        exists_lookup_of_same (Json.everywhere_object.mp hproper).1 h hn
      refine ⟨by rw [hkey]; rfl, ?_⟩
      exact ih m hm ((Json.everywhere_object.mp hproper).2 m hm)
        ((Json.everywhere_object.mp hmoderate).2 m hm) hsame
    | _ => simp [ofJson, same] at h
  | _ =>
    cases v with
    | scalar t =>
      have hprintable := isPrintable_ofJson hmoderate
      rw [ofJson, isPrintable] at hprintable
      rw [ofJson, same] at h
      rw [isPrintable]
      exact isPrintable_of_same_scalar hprintable h
    | _ => simp [ofJson, same] at h

/-! ## Order -/

/-- Whether a value can be shown does not depend on the order of entries. -/
theorem isPrintable_ordered (v : Value) : v.ordered.isPrintable = v.isPrintable := by
  -- on the value: sorting the names of a mapping leaves the members as they are
  induction v using structural with
  | list items ih =>
    rw [ordered, isPrintable, isPrintable, Bool.eq_iff_iff, printableItems_iff, printableItems_iff,
      orderedItems_eq, List.forall_mem_map]
    exact forall₂_congr fun v hv => by rw [ih v hv]
  | pair a b iha ihb => rw [ordered, isPrintable, isPrintable, iha, ihb]
  | object ms ih =>
    rw [ordered, isPrintable, isPrintable, Bool.eq_iff_iff, printableMembers_iff, printableMembers_iff]
    simp only [(List.mergeSort_perm _ _).mem_iff]
    rw [orderedEntries_eq, List.forall_mem_map]
    exact forall₂_congr fun m hm => by rw [ih m hm]
  | _ => rfl

end Value

namespace TypeRef

theorem isPrintable_of_plain {t : TypeRef} {j : Json} (h : t.plain = .ok j) : t.isPrintable = true := by
  cases t with
  | named n => rfl
  | composite ms =>
    have hvalues := exists_plain_of_plainAccount (plain_composite_iff.mp h)
    rw [isPrintable, toValue, Value.isPrintable, Value.printableMembers_iff, entries,
      List.forall_mem_map]
    · intro m hm
      obtain ⟨j, hj⟩ := hvalues m hm
      exact ⟨rfl, Value.isPrintable_of_plainWithin hj⟩
    · simp

end TypeRef

end SchemaGraft
