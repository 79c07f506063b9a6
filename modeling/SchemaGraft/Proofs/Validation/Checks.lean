import SchemaGraft.Proofs.Value.Plain
import SchemaGraft.Validation.Leaf

/-!
# When Checks Succeed

What a check accepts, and what it gives for it.  Joined checks succeed when every part does; the checks
of single values are described for the values of JSON documents.

## Architecture

- **Joining**: `Checked.both`, `Checked.under`, `Checked.each`; and when two joined checks agree.
- **Single values**: texts, optional values, lists and mappings of JSON documents.
- **Members**: look-up by name, required and optional members, and the members beyond them.
-/

namespace SchemaGraft

open Except (LiftRel)
open Json (names mapValues lookup)

/-! ## Joining -/

namespace Checked

variable {α β : Type}

/-- Two checks are passed when each of them is. -/
theorem both_eq_ok_iff {x : Checked α} {y : Checked β} {r : α × β} :
    both x y = .ok r ↔ x = .ok r.1 ∧ y = .ok r.2 := by
  obtain ⟨a, b⟩ := r
  cases x <;> cases y <;> simp [both]

/-- The place of a check does not matter to what passes it. -/
theorem under_eq_ok_iff {step : Step} {x : Checked α} {a : α} :
    under step x = .ok a ↔ x = .ok a := by
  cases x <;> simp [under]

/-- Items pass a check one by one, whatever the place of the first of them is. -/
theorem eachFrom_eq_ok_iff {check : α → Checked β} {i : ℕ} {items : List α} {bs : List β} :
    eachFrom check i items = .ok bs ↔ List.Forall₂ (fun a b => check a = .ok b) items bs := by
  induction items generalizing i bs with
  | nil => rw [eachFrom, Except.ok.injEq, List.forall₂_nil_left_iff, eq_comm]
  | cons a rest ih =>
    rw [eachFrom, Except.map_eq_ok_iff, List.forall₂_cons_left_iff]
    simp only [both_eq_ok_iff, under_eq_ok_iff, ih]
    constructor
    · rintro ⟨r, ⟨hhead, htail⟩, rfl⟩
      exact ⟨r.1, r.2, hhead, htail, rfl⟩
    · rintro ⟨b, bs', hhead, htail, rfl⟩
      exact ⟨(b, bs'), ⟨hhead, htail⟩, rfl⟩

theorem each_eq_ok_iff {check : α → Checked β} {items : List α} {bs : List β} :
    each check items = .ok bs ↔ List.Forall₂ (fun a b => check a = .ok b) items bs :=
  eachFrom_eq_ok_iff

section

variable {R : α → α → Prop} {S : β → β → Prop}

/-- Two checks that are related give the same issues or related outcomes. -/
theorem liftRel_both {x x' : Checked α} {y y' : Checked β} (hx : LiftRel Eq R x x')
    (hy : LiftRel Eq S y y') :
    LiftRel Eq (fun r r' => R r.1 r'.1 ∧ S r.2 r'.2) (both x y) (both x' y') := by
  -- the issues of both parts are listed, so each part has to have the same
  cases hx with
  | ok hx =>
    cases hy with
    | ok hy => exact .ok ⟨hx, hy⟩
    | error hy => exact .error hy
  | error hx =>
    cases hy with
    | ok hy => exact .error hx
    | error hy => exact .error (by rw [hx, hy])

/-- Issues that are the same are so one step further inside. -/
theorem liftRel_under {step : Step} {x x' : Checked α} (h : LiftRel Eq R x x') :
    LiftRel Eq R (under step x) (under step x') := by
  cases h with
  | ok h => exact .ok h
  | error h => exact .error (by rw [h])

/-- Items that pass in related ways, or for the same issues, do so as a list. -/
theorem liftRel_each {γ : Type} {check : γ → Checked β} {items items' : List γ}
    (h : List.Forall₂ (fun a a' => LiftRel Eq S (check a) (check a')) items items') :
    LiftRel Eq (List.Forall₂ S) (each check items) (each check items') := by
  rw [each, each]
  generalize 0 = i
  induction h generalizing i with
  | nil => exact .ok .nil
  | cons hhead _ ih =>
    exact (liftRel_both (liftRel_under hhead) (ih (i + 1))).map fun r r' hr => .cons hr.1 hr.2

end

end Checked

namespace Check

variable {α : Type}

/-! ## Single Values -/

/-- Of the values of documents, only texts are taken for texts. -/
theorem text_eq_ok_iff {u : Json} {t : Text} : text (.ofJson u) = .ok t ↔ u = .text t := by
  cases u <;> simp [Value.ofJson, text, Checked.fail]

/-- What may be absent is null, or passes the check. -/
theorem optional_eq_ok_iff {check : Value → Checked α} {u : Json} {o : Option α} :
    optional check (.ofJson u) = .ok o ↔
      u = .null ∧ o = none ∨ u ≠ .null ∧ ∃ a, check (.ofJson u) = .ok a ∧ some a = o := by
  cases u with
  | null => simp [Value.ofJson, optional, eq_comm]
  | _ => simp [Value.ofJson, optional, Except.map_eq_ok_iff]

/-- A list passes when each of its items does. -/
theorem list_eq_ok_iff {check : Value → Checked α} {u : Json} {as : List α} :
    list check (.ofJson u) = .ok as ↔
      ∃ items, u = .list items ∧ List.Forall₂ (fun v a => check (.ofJson v) = .ok a) items as := by
  cases u with
  | list items =>
    rw [Value.ofJson_list, list, sequence, Checked.each_eq_ok_iff, List.forall₂_map_left_iff]
    simp
  | _ => simp [Value.ofJson, list, sequence, Checked.fail]

/-- Keys that are texts are the names of the mapping. -/
theorem dictionary_go_entries (xs : List (Text × Value)) :
    dictionary.go (TypeRef.entries xs) = .ok xs := by
  induction xs with
  | nil => rfl
  | cons x xs ih =>
    rw [TypeRef.entries, List.map_cons, dictionary.go, ← TypeRef.entries, ih]
    rfl

/-- Objects are mappings, with the values that their members have. -/
theorem dictionary_eq_ok_iff {u : Json} {xs : List (Text × Value)} :
    dictionary (.ofJson u) = .ok xs ↔
      ∃ ms, u = .object ms ∧ Json.ofPairs (mapValues Value.ofJson ms) = xs := by
  cases u with
  | object ms =>
    rw [Value.ofJson_object, dictionary, dictionary_go_entries, Except.map_eq_ok_iff]
    simp
  | _ => simp [Value.ofJson, dictionary, Checked.fail]

/-- Only objects are records, and their members are the entries. -/
theorem record_eq_ok_iff {kind : String} {u : Json} {es : List (Scalar × Value)} :
    record kind (.ofJson u) = .ok es ↔
      ∃ ms, u = .object ms ∧ TypeRef.entries (mapValues Value.ofJson ms) = es := by
  cases u with
  | object ms => rw [Value.ofJson_object, record, Except.ok.injEq]; simp
  | _ => simp [Value.ofJson, record, Checked.fail]

/-! ## Members -/

/-- Among entries whose keys are texts, a text is found as a name. -/
theorem lookup_entries (name : Text) (xs : List (Text × Value)) :
    Scalar.lookup (.text name) (TypeRef.entries xs) = lookup name xs := by
  induction xs with
  | nil => rfl
  | cons x xs ih =>
    rw [TypeRef.entries, List.map_cons, Scalar.lookup, ← TypeRef.entries, ih, Json.lookup_cons]
    simp [Scalar.same]

/-- A member of a record is the member of the object. -/
theorem member?_entries (name : String) (ms : List (Text × Json)) :
    member? (TypeRef.entries (mapValues Value.ofJson ms)) name =
      (lookup (Text.ofString name) ms).map Value.ofJson := by
  rw [member?, lookup_entries, Json.lookup_mapValues]

/-- A required member has to be there and to pass its check. -/
theorem required_eq_ok_iff {check : Value → Checked α} {name : String} {ms : List (Text × Json)}
    {a : α} :
    required (TypeRef.entries (mapValues Value.ofJson ms)) name check = .ok a ↔
      ∃ v, lookup (Text.ofString name) ms = some v ∧ check (.ofJson v) = .ok a := by
  rw [required, Checked.under_eq_ok_iff, member?_entries]
  cases lookup (Text.ofString name) ms <;> simp [Checked.fail]

/-- A possible member passes its check if it is there. -/
theorem possible_eq_ok_iff {check : Value → Checked α} {name : String} {ms : List (Text × Json)}
    {o : Option α} :
    possible (TypeRef.entries (mapValues Value.ofJson ms)) name check = .ok o ↔
      Option.Rel (fun v a => check (.ofJson v) = .ok a) (lookup (Text.ofString name) ms) o := by
  rw [possible, member?_entries]
  cases lookup (Text.ofString name) ms with
  | none => cases o <;> simp
  | some v =>
    rw [Option.map_some, Except.map_eq_ok_iff]
    simp only [Checked.under_eq_ok_iff]
    cases o <;> simp

/-- Is the name one of the declared ones? -/
def isDeclared (declared : List String) (name : Text) : Bool :=
  declared.any fun n => name == Text.ofString n

/-- Whatever a record has beyond its declared members is kept. -/
theorem extras_go_entries (xs : List (Text × Value)) :
    extras.go (TypeRef.entries xs) = .ok xs := by
  induction xs with
  | nil => rfl
  | cons x xs ih =>
    rw [TypeRef.entries, List.map_cons, extras.go, ← TypeRef.entries, ih]
    rfl

/-- The members beyond the declared ones are kept in their order. -/
theorem extras_entries (declared : List String) (xs : List (Text × Value)) :
    extras declared (TypeRef.entries xs) = .ok (xs.filter fun x => !isDeclared declared x.1) := by
  have hfilter : (TypeRef.entries xs).filter (fun m => !(declared.any fun n => m.1 == .text n)) =
      TypeRef.entries (xs.filter fun x => !isDeclared declared x.1) := by
    rw [TypeRef.entries, TypeRef.entries, List.filter_map]
    refine congrArg _ (List.filter_congr fun x _ => ?_)
    have hbeq (n : String) : (Scalar.text x.1 == Scalar.text (Text.ofString n)) =
        (x.1 == Text.ofString n) := by
      rw [Bool.eq_iff_iff, beq_iff_eq, beq_iff_eq, Scalar.text.injEq]
    simp only [Function.comp_apply, isDeclared, hbeq]
  rw [extras, hfilter, extras_go_entries]

/-- A key that cannot be encoded holds a lone surrogate. -/
theorem hasLoneSurrogate_entries (xs : List (Text × Value)) :
    hasLoneSurrogate (TypeRef.entries xs) = false ↔ ∀ n ∈ names xs, n.Encodable := by
  simp [hasLoneSurrogate, TypeRef.entries, names, Text.Encodable]

theorem readable_of_encodable {ms : List (Text × Json)} (h : ∀ n ∈ names ms, n.Encodable)
    (checked : Checked α) :
    readable (TypeRef.entries (mapValues Value.ofJson ms)) checked = checked := by
  rw [← Json.names_mapValues Value.ofJson ms, ← hasLoneSurrogate_entries] at h
  rw [readable, h]
  rfl

/-- One name that cannot be encoded makes the record as a whole unreadable. -/
theorem readable_of_not_encodable {ms : List (Text × Json)} (h : ¬∀ n ∈ names ms, n.Encodable)
    (checked : Checked α) :
    readable (TypeRef.entries (mapValues Value.ofJson ms)) checked = Checked.fail .textUnicode := by
  rw [← Json.names_mapValues Value.ofJson ms, ← hasLoneSurrogate_entries, Bool.not_eq_false] at h
  rw [readable, if_pos h]

/-- A record passes when its names can be encoded and its members pass. -/
theorem readable_eq_ok_iff {ms : List (Text × Json)} {checked : Checked α} {a : α} :
    readable (TypeRef.entries (mapValues Value.ofJson ms)) checked = .ok a ↔
      (∀ n ∈ names ms, n.Encodable) ∧ checked = .ok a := by
  by_cases h : ∀ n ∈ names ms, n.Encodable
  · rw [readable_of_encodable h]
    exact (and_iff_right h).symm
  · rw [readable_of_not_encodable h, Checked.fail]
    simp [h]

end Check

end SchemaGraft
