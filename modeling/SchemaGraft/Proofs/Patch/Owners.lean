import Mathlib.Tactic
import SchemaGraft.Table.Basic

/-!
# Owners of Names

The owners of a name are noted while the rules are read.  What has been noted in the end is the list of all
names, each once, with the places of the rules that claim it.

## Architecture

- **First occurrences**: how `List.eraseDups` grows, and that searching it is searching the whole list.
- **Notes**: `Owners.foldl_note`, what comes of noting one pair after the other.
- **Tables**: `PatchTable.owners_eq`, and `PatchTable.conflict?_eq` for the first name with several owners.
-/

namespace SchemaGraft

/-! ## First Occurrences -/

section

variable {α β : Type} [BEq α] [LawfulBEq α]

/-- Another element is kept unless it has occurred before. -/
theorem eraseDups_concat (as : List α) (a : α) :
    (as ++ [a]).eraseDups = if a ∈ as then as.eraseDups else as.eraseDups ++ [a] := by
  have hlast : [a].eraseDups = [a] := rfl
  rw [List.eraseDups_append]
  by_cases h : a ∈ as <;> simp [List.removeAll, h, hlast]

theorem nodup_eraseDups (as : List α) : as.eraseDups.Nodup := by
  induction as using List.reverseRecOn with
  | nil => exact List.nodup_nil
  | append_singleton as a ih =>
    rw [eraseDups_concat]
    split
    · exact ih
    · next h => exact ih.append (List.nodup_singleton a) (by simpa using h)

/-- The first find among the first occurrences is the first find. -/
theorem findSome?_eraseDups (f : α → Option β) (as : List α) :
    as.eraseDups.findSome? f = as.findSome? f := by
  induction as using List.reverseRecOn with
  | nil => rfl
  | append_singleton as a ih =>
    rw [eraseDups_concat, List.findSome?_append]
    split
    · next h =>
      -- what the last element gives has been found before
      rw [ih]
      cases hfound : as.findSome? f with
      | some b => rfl
      | none => simp [List.findSome?_eq_none_iff.mp hfound a h]
    · rw [List.findSome?_append, ih]

/-- A repeated element in front of others is one element in front of them. -/
theorem eraseDups_append_of_forall_eq {as bs : List α} {a : α} (has : ∀ b ∈ as, b = a) (hbs : a ∉ bs) :
    (as ++ bs).eraseDups = if as = [] then bs.eraseDups else a :: bs.eraseDups := by
  cases as with
  | nil => rfl
  | cons b rest =>
    obtain ⟨rfl, hrest⟩ := List.forall_mem_cons.mp has
    have hfront : rest.filter (fun c => !c == b) = [] := by simpa using hrest
    have hback : bs.filter (fun c => !c == b) = bs := by
      rw [List.filter_eq_self]
      intro c hc
      simpa using ne_of_mem_of_not_mem hc hbs
    rw [List.cons_append, List.eraseDups_cons, List.filter_append, hfront, hback, List.nil_append,
      if_neg (List.cons_ne_nil b rest)]

end

/-! ## Notes -/

namespace Owners

/-- The places with which a name is paired, each once. -/
def placesIn (pairs : List (Nat × Text)) (name : Text) : List Nat :=
  ((pairs.filter fun p => p.2 = name).map (·.1)).eraseDups

theorem placesIn_concat (pairs : List (Nat × Text)) (place : Nat) (name n : Text) :
    placesIn (pairs ++ [(place, name)]) n =
      if name = n then
        if place ∈ placesIn pairs n then placesIn pairs n else placesIn pairs n ++ [place]
      else placesIn pairs n := by
  simp only [placesIn, List.mem_eraseDups, ← eraseDups_concat]
  split
  · next h => simp [h]
  · next h => simp [h]

/-- A new name goes to the end. -/
theorem note_of_notMem {keys : List Text} {places : Text → List Nat} {name : Text} (place : Nat)
    (h : name ∉ keys) :
    note (keys.map fun n => (n, places n)) place name =
      (keys.map fun n => (n, places n)) ++ [(name, [place])] := by
  induction keys with
  | nil => rfl
  | cons n rest ih =>
    obtain ⟨hn, hrest⟩ := not_or.mp (List.mem_cons.not.mp h)
    rw [List.map_cons, note, if_neg (Ne.symm hn), ih hrest]
    rfl

/-- A known name gets the place, if it does not have it. -/
theorem note_of_mem {keys : List Text} (hkeys : keys.Nodup) {places : Text → List Nat} {name : Text}
    (place : Nat) (h : name ∈ keys) :
    note (keys.map fun n => (n, places n)) place name = keys.map fun n => (n,
      if name = n then if place ∈ places n then places n else places n ++ [place] else places n) := by
  induction keys with
  | nil => cases h
  | cons n rest ih =>
    obtain ⟨hn, hrest⟩ := List.nodup_cons.mp hkeys
    rw [List.map_cons, note, List.map_cons]
    by_cases hname : n = name
    · -- the names behind it are other ones
      subst hname
      have hothers : ∀ m ∈ rest, n ≠ m := fun m hm heq => hn (heq ▸ hm)
      simp only [if_true, List.contains_iff_mem]
      congr 1
      exact List.map_congr_left fun m hm => by rw [if_neg (hothers m hm)]
    · rw [if_neg hname, if_neg (Ne.symm hname), ih hrest ((List.mem_cons.mp h).resolve_left (Ne.symm hname))]

/-- **What comes of noting pairs one after the other**: each name once, with its places. -/
theorem foldl_note (pairs : List (Nat × Text)) :
    pairs.foldl (fun found (p : Nat × Text) => note found p.1 p.2) [] =
      (pairs.map (·.2)).eraseDups.map fun n => (n, placesIn pairs n) := by
  -- on the pairs, from the last one back, as each is noted behind those before it
  induction pairs using List.reverseRecOn with
  | nil => rfl
  | append_singleton pairs pair ih =>
    obtain ⟨place, name⟩ := pair
    rw [List.foldl_append, ih, List.foldl_cons, List.foldl_nil, List.map_append, List.map_singleton]
    rw [eraseDups_concat]
    simp only [placesIn_concat]
    by_cases h : name ∈ pairs.map (·.2)
    · rw [if_pos h, note_of_mem (nodup_eraseDups _) place (List.mem_eraseDups.mpr h)]
    · have hnone : placesIn pairs name = [] := by
        rw [placesIn, List.filter_eq_nil_iff.mpr]
        · rfl
        · intro p hp hname
          exact h (List.mem_map.mpr ⟨p, hp, by simpa using hname⟩)
      rw [if_neg h, note_of_notMem place (fun hmem => h (List.mem_eraseDups.mp hmem)), List.map_append]
      congr 1
      · refine List.map_congr_left fun n hn => ?_
        rw [if_neg (ne_of_mem_of_not_mem (List.mem_eraseDups.mp hn) h).symm]
      · simp [hnone]

end Owners

/-! ## Tables -/

namespace PatchTable

/-- The listed names of rules, the first of which has place `k`. -/
def listedFrom (k : ℕ) (rules : List PatchRule) : List (ℕ × Text) :=
  (rules.zipIdx k).flatMap fun (r, place) => r.allNames.map (place, ·)

theorem listedFrom_cons (k : ℕ) (r : PatchRule) (rest : List PatchRule) :
    listedFrom k (r :: rest) = r.allNames.map (k, ·) ++ listedFrom (k + 1) rest := by
  rw [listedFrom, List.zipIdx_cons, List.flatMap_cons, ← listedFrom]

theorem map_snd_listedFrom (k : ℕ) (rules : List PatchRule) :
    (listedFrom k rules).map (·.2) = rules.flatMap (·.allNames) := by
  induction rules generalizing k with
  | nil => rfl
  | cons r rest ih =>
    rw [listedFrom_cons, List.map_append, ih, List.flatMap_cons]
    simp

theorem le_of_mem_listedFrom {k : ℕ} {rules : List PatchRule} {p : ℕ × Text}
    (hp : p ∈ listedFrom k rules) : k ≤ p.1 := by
  rw [listedFrom, List.mem_flatMap] at hp
  obtain ⟨⟨r, place⟩, hr, hp⟩ := hp
  obtain ⟨n, -, rfl⟩ := List.mem_map.mp hp
  exact List.le_snd_of_mem_zipIdx hr

/-- The places that come with a name are those of the rules that claim it. -/
theorem placesIn_listedFrom (k : ℕ) (rules : List PatchRule) (name : Text) :
    Owners.placesIn (listedFrom k rules) name = claimants.go name k rules := by
  -- on the rules: those behind the first stand at later places
  induction rules generalizing k with
  | nil => rfl
  | cons r rest ih =>
    have hfront : ∀ b ∈ ((r.allNames.map (k, ·)).filter fun p => p.2 = name).map (·.1), b = k := by
      simp
    have hback : k ∉ ((listedFrom (k + 1) rest).filter fun p => p.2 = name).map (·.1) := by
      intro hk
      obtain ⟨p, hp, hplace⟩ := List.mem_map.mp hk
      have hle := le_of_mem_listedFrom (List.mem_filter.mp hp).1
      omega
    have hnone : ((r.allNames.map (k, ·)).filter fun p => p.2 = name).map (·.1) = [] ↔
        ¬r.claims name = true := by
      simp [PatchRule.claims, List.forall_mem_ne']
    rw [listedFrom_cons, Owners.placesIn, List.filter_append, List.map_append,
      eraseDups_append_of_forall_eq hfront hback, ← Owners.placesIn, ih, claimants.go]
    simp only [hnone, ite_not]

/-- **The owners of names**: each name once, in the order in which the rules list them, with the places of
the rules that claim it. -/
theorem owners_eq (t : PatchTable) :
    t.owners = (t.rules.flatMap (·.allNames)).eraseDups.map fun n => (n, t.claimants n) := by
  have hfold := Owners.foldl_note (listedFrom 0 t.rules)
  simp only [map_snd_listedFrom, placesIn_listedFrom] at hfold
  exact hfold

/-- The conflict of a table is found by counting the rules that claim each listed name. -/
theorem conflict?_eq (t : PatchTable) :
    t.conflict? = (t.rules.flatMap (·.allNames)).findSome? fun n =>
      if 1 < (t.claimants n).length then some ⟨n, t.claimants n⟩ else none := by
  rw [conflict?, owners_eq, List.findSome?_map, findSome?_eraseDups]
  rfl

end PatchTable

end SchemaGraft
