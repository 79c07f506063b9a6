import SchemaGraft.Proofs.Json.Spelling
import SchemaGraft.Proofs.Value.Ordered

/-!
# Spellings of Data

Comparing data does not depend on the order of entries.  Neither does it matter for the fault of a value of a
document that has no JSON form, unless names cannot be encoded.

## Architecture

- **Comparing**: `Value.same_ordered`, by induction over `Value.structural`.
- **Faults**: `Value.documentFault_of_plainWithin`; a document can be nested too deeply, or have a name that
  cannot be encoded, and that is all that can be wrong with it.
-/

namespace SchemaGraft

open Json (mapValues)

namespace Value

/-! ## Comparing -/

/-- Induction over a value, its items and the values of its entries. -/
@[elab_as_elim]
theorem structural {motive : Value → Prop} (scalar : ∀ s, motive (.scalar s))
    (list : ∀ items, (∀ v ∈ items, motive v) → motive (.list items))
    (pair : ∀ a b, motive a → motive b → motive (.pair a b)) (set : ∀ members, motive (.set members))
    (object : ∀ ms, (∀ m ∈ ms, motive m.2) → motive (.object ms))
    (cycle : ∀ isObject, motive (.cycle isObject)) (v : Value) : motive v :=
  match v with
  | .scalar s => scalar s
  | .list items => list items fun v _ => structural scalar list pair set object cycle v
  | .pair a b =>
    pair a b (structural scalar list pair set object cycle a)
      (structural scalar list pair set object cycle b)
  | .set members => set members
  | .object ms => object ms fun m _ => structural scalar list pair set object cycle m.2
  | .cycle isObject => cycle isObject
termination_by v
decreasing_by
  all_goals simp_wf
  · have := List.sizeOf_lt_of_mem ‹_ ∈ items›
    omega
  · omega
  · have := List.sizeOf_lt_of_mem ‹_ ∈ ms›
    have : sizeOf m.2 < sizeOf m := by cases m; simp
    omega

theorem sameMembers_eq_all (ms ns : List (Scalar × Value)) :
    sameMembers ms ns = ms.all fun m => (m.1.lookup ns).any m.2.same := by
  induction ms with
  | nil => rfl
  | cons m rest ih =>
    rw [sameMembers, ih, List.all_cons]
    cases m.1.lookup ns <;> rfl

/-- **Comparing does not depend on the order of entries.** -/
theorem same_ordered (x y : Value) : x.ordered.same y = x.same y := by
  induction x using structural generalizing y with
  | scalar s => rfl
  | list items ih =>
    cases y with
    | list items' =>
      rw [ordered, orderedItems_eq, same, same]
      -- item by item, next to the induction on the value
      induction items generalizing items' with
      | nil => rfl
      | cons v items ihl =>
        cases items' with
        | nil => rfl
        | cons v' items' =>
          rw [List.map_cons, sameItems, sameItems, ih v (List.mem_cons_self ..),
            ihl (fun w hw => ih w (List.mem_cons_of_mem _ hw))]
    | _ => rfl
  | pair a b iha ihb =>
    cases y with
    | pair c d => rw [ordered, same, same, iha, ihb]
    | _ => rfl
  | set members => rfl
  | object ms ih =>
    cases y with
    | object ns =>
      have hperm := List.mergeSort_perm (orderedEntries ms) fun m n => m.1.sortKey.le n.1.sortKey
      rw [ordered, same, same, hperm.length_eq, sameMembers_eq_all, hperm.all_eq, orderedEntries_eq,
        List.length_map, List.all_map, sameMembers_eq_all]
      congr 1
      rw [Bool.eq_iff_iff, List.all_eq_true, List.all_eq_true]
      apply forall₂_congr
      intro m hm
      rw [Function.comp_apply, funext (ih m hm)]
    | _ => rfl
  | cycle isObject => rfl

/-! ## Faults -/

end Value

/-- The faults of a value of a document. -/
def PlainFault.OfDocument : PlainFault → Prop
  | .name _ => True
  | .tooDeep => True
  | _ => False

/-- Faults that two spellings of a document may have.  They are the same, or both are faults of a document;
it is the order of members that decides which comes first.  Where all names can be encoded, there is only one
such fault. -/
def PlainFault.Kindred (encodable : Prop) (f g : PlainFault) : Prop :=
  f = g ∨ ¬encodable ∧ f.OfDocument ∧ g.OfDocument

namespace Value

/-- What can be wrong with a value of a document with the given names. -/
def DocumentFault (v : Json) (f : PlainFault) : Prop :=
  f.OfDocument ∧ (v.NamesEncodable → f = .tooDeep)

theorem documentFault_tooDeep (v : Json) : DocumentFault v .tooDeep :=
  ⟨trivial, fun _ => rfl⟩

/-- A fault of a part is one of the whole. -/
theorem DocumentFault.mono {u v : Json} {f : PlainFault} (h : DocumentFault u f)
    (hnames : v.NamesEncodable → u.NamesEncodable) : DocumentFault v f :=
  ⟨h.1, fun hv => h.2 (hnames hv)⟩

/-- Two spellings of a document have kindred faults. -/
theorem DocumentFault.kindred {encodable : Prop} {u v : Json} {f g : PlainFault}
    (hf : DocumentFault u f) (hg : DocumentFault v g) (hu : encodable → u.NamesEncodable)
    (hv : encodable → v.NamesEncodable) : PlainFault.Kindred encodable f g := by
  by_cases h : encodable
  · exact .inl ((hf.2 (hu h)).trans (hg.2 (hv h)).symm)
  · exact .inr ⟨h, hf.1, hg.1⟩

theorem documentFault_of_scalar {depth : ℕ} {v : Json} (hscalar : v.isScalar = true) (hv : v.Moderate)
    {f : PlainFault} (h : plainWithin depth (ofJson v) = .error f) : DocumentFault v f := by
  cases depth with
  | zero =>
    rw [plainWithin] at h
    exact Except.error.inj h ▸ documentFault_tooDeep v
  | succ depth =>
    cases v with
    | int n =>
      rw [Json.moderate_int] at hv
      simp only [ofJson, plainWithin, Scalar.plain] at h
      -- the power is not to be computed
      generalize Json.maxIntegerDigits = k at hv h
      split at h
      · next hn => exact absurd hn hv.not_ge
      · cases h
    | list items => cases hscalar
    | object ms => cases hscalar
    | _ => cases h

/-- A text that is no name of a member has a lone surrogate. -/
theorem memberName_text_eq_error {t : Text} {f : PlainFault}
    (h : (Scalar.text t).memberName = .error f) : f.OfDocument ∧ ¬t.Encodable := by
  refine ⟨?_, fun ht => ?_⟩
  · rw [Scalar.memberName] at h
    split at h
    · cases h
    · cases h
      trivial
  · rw [Scalar.memberName_text_iff.mpr ⟨ht, rfl⟩] at h
    cases h

/-- **A value of a document has no form only because it is nested too deeply, or because a name in it cannot
be encoded.** -/
theorem documentFault_of_plainWithin {depth : ℕ} {v : Json} (hv : v.Moderate) {f : PlainFault}
    (h : plainWithin depth (ofJson v) = .error f) : DocumentFault v f := by
  induction v generalizing depth with
  | list items ih =>
    cases depth with
    | zero =>
      rw [plainWithin] at h
      exact Except.error.inj h ▸ documentFault_tooDeep _
    | succ depth =>
      rw [ofJson_list, plainWithin, plainItems_eq, Except.bind_pure_eq_error_iff] at h
      obtain ⟨_, hmem, h⟩ := Except.exists_of_mapM_eq_error h
      obtain ⟨v, hvmem, rfl⟩ := List.mem_map.mp hmem
      exact (ih v hvmem (Json.everywhere_list.mp hv v hvmem) h).mono
        fun hnames => Json.everywhere_list.mp hnames v hvmem
  | object ms ih =>
    cases depth with
    | zero =>
      rw [plainWithin] at h
      exact Except.error.inj h ▸ documentFault_tooDeep _
    | succ depth =>
      rw [ofJson_object, plainWithin, plainMembers_eq, Except.bind_pure_eq_error_iff] at h
      obtain ⟨_, hmem, h⟩ := Except.exists_of_mapM_eq_error h
      rw [TypeRef.entries, mapValues, List.map_map] at hmem
      obtain ⟨m, hmmem, rfl⟩ := List.mem_map.mp hmem
      rw [Function.comp_apply, plainEntry] at h
      -- the name of a member is looked at before its value
      cases hname : (Scalar.text m.1).memberName with
      | error e =>
        rw [hname] at h
        cases h
        obtain ⟨hdocument, hencodable⟩ := memberName_text_eq_error hname
        exact ⟨hdocument, fun hnames =>
          absurd ((Json.everywhere_object.mp hnames).1 m.1 (Json.mem_names_of_mem hmmem)) hencodable⟩
      | ok n =>
        rw [hname, Except.ok_bind, Except.bind_pure_eq_error_iff] at h
        exact (ih m hmmem ((Json.everywhere_object.mp hv).2 m hmmem) h).mono
          fun hnames => (Json.everywhere_object.mp hnames).2 m hmmem
  | _ => exact documentFault_of_scalar rfl hv h

end Value

end SchemaGraft
