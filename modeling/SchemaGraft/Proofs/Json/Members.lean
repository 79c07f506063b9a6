import Mathlib.Tactic
import SchemaGraft.Json.Basic

/-!
# Members of Objects

An object lists its members; a value of the members depends on the list only up to order when no two
members share a name.

## Architecture

- **Order of texts**: `Text.le` is a total order.
- **Look-up**: `Json.lookup` in lists without repeated names.
- **Building**: `Json.put` and `Json.ofPairs` never repeat a name, and `Json.ofPairs` keeps a list
  that repeats none.
- **Sorting**: `Json.byName` gives two lists of the same members the same form
  (`byName_eq_of_perm`).
-/

namespace SchemaGraft

/-! ## Order of Texts -/

namespace Text

/-- No two code points have the same number: a scalar value is none of a surrogate. -/
theorem value_injective : Function.Injective Codepoint.value := by
  intro c d h
  cases c with
  | scalar c =>
    cases d with
    | scalar d => exact congrArg _ (Char.toNat_inj.mp h)
    | surrogate o =>
      -- the numbers of surrogates are left out of those of characters
      rcases c.valid with hc | ⟨hc, -⟩ <;> simp only [Codepoint.value, Char.toNat] at h <;> omega
  | surrogate o =>
    cases d with
    | scalar d =>
      rcases d.valid with hd | ⟨hd, -⟩ <;> simp only [Codepoint.value, Char.toNat] at h <;> omega
    | surrogate o' =>
      simp only [Codepoint.value, Nat.add_left_cancel_iff] at h
      exact congrArg _ (Fin.ext h)

/-- The first code points decide unless they are the same. -/
theorem le_cons (a b : Codepoint) (s t : Text) :
    le (a :: s) (b :: t) = true ↔ a.value < b.value ∨ a = b ∧ le s t = true := by
  simp [le, value_injective.eq_iff]

/-- Of two texts, one comes first. -/
theorem le_total (s t : Text) : le s t || le t s := by
  rw [Bool.or_eq_true]
  -- on the first text: the first codepoints that differ decide
  induction s generalizing t with
  | nil => exact .inl (by simp [le])
  | cons a s ih =>
    cases t with
    | nil => exact .inr (by simp [le])
    | cons b t =>
      rw [le_cons, le_cons]
      rcases Nat.lt_trichotomy a.value b.value with h | h | h
      · exact .inl (.inl h)
      · have hab := value_injective h
        exact (ih t).imp (fun hs => .inr ⟨hab, hs⟩) (fun ht => .inr ⟨hab.symm, ht⟩)
      · exact .inr (.inl h)

/-- The order of texts is transitive. -/
theorem le_trans (s t u : Text) (hst : le s t) (htu : le t u) : le s u := by
  induction s generalizing t u with
  | nil => simp [le]
  | cons a s ih =>
    cases t with
    | nil => simp [le] at hst
    | cons b t =>
      cases u with
      | nil => simp [le] at htu
      | cons c u =>
        rw [le_cons] at *
        -- the first place at which two of the texts differ decides, and may be that of either pair
        rcases hst with hab | ⟨rfl, hst⟩
        · rcases htu with hbc | ⟨rfl, -⟩
          · exact .inl (hab.trans hbc)
          · exact .inl hab
        · exact htu.imp_right fun ⟨hac, htu⟩ => ⟨hac, ih t u hst htu⟩

/-- Only a text itself comes both before and after it. -/
theorem le_antisymm {s t : Text} (hst : le s t) (hts : le t s) : s = t := by
  -- on the first text: neither can have the lesser codepoint
  induction s generalizing t with
  | nil =>
    cases t with
    | nil => rfl
    | cons b t => simp [le] at hts
  | cons a s ih =>
    cases t with
    | nil => simp [le] at hst
    | cons b t =>
      rw [le_cons] at *
      rcases hst with hab | ⟨rfl, hst⟩
      · rcases hts with hba | ⟨rfl, -⟩
        · omega
        · omega
      · rcases hts with haa | ⟨-, hts⟩
        · omega
        · rw [ih hst hts]

end Text

namespace Json

variable {β γ : Type}

/-- The names of members, in order. -/
def names (ms : List (Text × β)) : List Text :=
  ms.map (·.1)

@[simp] theorem names_nil : names ([] : List (Text × β)) = [] := rfl

@[simp] theorem names_cons (m : Text × β) (ms : List (Text × β)) :
    names (m :: ms) = m.1 :: names ms := rfl

@[simp] theorem names_append (ms ns : List (Text × β)) :
    names (ms ++ ns) = names ms ++ names ns := List.map_append

theorem mem_names_of_mem {m : Text × β} {ms : List (Text × β)} (h : m ∈ ms) : m.1 ∈ names ms :=
  List.mem_map_of_mem h

/-- Members with new values. -/
def mapValues (f : β → γ) (ms : List (Text × β)) : List (Text × γ) :=
  ms.map fun m => (m.1, f m.2)

@[simp] theorem mapValues_nil (f : β → γ) : mapValues f [] = [] := rfl

@[simp] theorem mapValues_cons (f : β → γ) (m : Text × β) (ms : List (Text × β)) :
    mapValues f (m :: ms) = (m.1, f m.2) :: mapValues f ms := rfl

@[simp] theorem mapValues_append (f : β → γ) (ms ns : List (Text × β)) :
    mapValues f (ms ++ ns) = mapValues f ms ++ mapValues f ns := List.map_append

@[simp] theorem names_mapValues (f : β → γ) (ms : List (Text × β)) :
    names (mapValues f ms) = names ms := by
  simp [names, mapValues]

theorem mapValues_mapValues {δ : Type} (f : β → γ) (g : γ → δ) (ms : List (Text × β)) :
    mapValues g (mapValues f ms) = mapValues (g ∘ f) ms := by
  simp [mapValues]

theorem mapValues_congr {f g : β → γ} {ms : List (Text × β)} (h : ∀ m ∈ ms, f m.2 = g m.2) :
    mapValues f ms = mapValues g ms :=
  List.map_congr_left fun m hm => by rw [h m hm]

@[simp] theorem mapValues_id (ms : List (Text × β)) : mapValues id ms = ms :=
  List.map_id ms

theorem filter_mapValues (f : β → γ) (p : Text → Bool) (ms : List (Text × β)) :
    (mapValues f ms).filter (fun m => p m.1) = mapValues f (ms.filter fun m => p m.1) := by
  simp only [mapValues, List.filter_map]
  rfl

/-! ## Look-up -/

@[simp] theorem lookup_nil (name : Text) : lookup name ([] : List (Text × β)) = none := rfl

/-- The first member of a name is the one that is found. -/
theorem lookup_cons (name : Text) (m : Text × β) (ms : List (Text × β)) :
    lookup name (m :: ms) = if m.1 = name then some m.2 else lookup name ms := rfl

/-- What is found under a name is a member. -/
theorem mem_of_lookup {name : Text} {v : β} {ms : List (Text × β)} (h : lookup name ms = some v) :
    (name, v) ∈ ms := by
  -- on the members, as all the lemmas about looking one up
  induction ms with
  | nil => simp at h
  | cons m ms ih =>
    rw [lookup_cons] at h
    split at h
    · next hname =>
      obtain rfl := Option.some.inj h
      exact List.mem_cons.mpr (.inl (by rw [← hname]))
    · exact List.mem_cons_of_mem m (ih h)

/-- A name is found exactly when it is the name of a member. -/
theorem lookup_eq_none_iff {name : Text} {ms : List (Text × β)} :
    lookup name ms = none ↔ name ∉ names ms := by
  induction ms with
  | nil => simp
  | cons m ms ih =>
    rw [lookup_cons, names_cons, List.mem_cons, not_or, ← ih]
    split
    · next h => simp [h]
    · next h => simp [Ne.symm h]

/-- Without repeated names every member is found. -/
theorem lookup_of_mem {name : Text} {v : β} {ms : List (Text × β)} (hnodup : (names ms).Nodup)
    (h : (name, v) ∈ ms) : lookup name ms = some v := by
  induction ms with
  | nil => simp at h
  | cons m ms ih =>
    obtain ⟨hm, hms⟩ := List.nodup_cons.mp hnodup
    rw [lookup_cons]
    rcases List.mem_cons.mp h with rfl | h
    · simp
    -- a first member of the same name would repeat it
    · have hne : m.1 ≠ name := by
        rintro rfl
        exact hm (List.mem_map.mpr ⟨(m.1, v), h, rfl⟩)
      rw [if_neg hne, ih hms h]

/-- Without repeated names, being found and being a member are the same. -/
theorem lookup_eq_some_iff {name : Text} {v : β} {ms : List (Text × β)}
    (hnodup : (names ms).Nodup) : lookup name ms = some v ↔ (name, v) ∈ ms :=
  ⟨mem_of_lookup, lookup_of_mem hnodup⟩

/-- Without repeated names, look-up does not depend on the order of the members. -/
theorem lookup_perm {ms ns : List (Text × β)} (hnodup : (names ms).Nodup) (h : ms.Perm ns)
    (name : Text) : lookup name ms = lookup name ns := by
  have hns : (names ns).Nodup := (h.map _).nodup_iff.mp hnodup
  ext v
  rw [lookup_eq_some_iff hnodup, lookup_eq_some_iff hns, h.mem_iff]

/-- New values are found under the old names. -/
@[simp] theorem lookup_mapValues (f : β → γ) (name : Text) (ms : List (Text × β)) :
    lookup name (mapValues f ms) = (lookup name ms).map f := by
  induction ms with
  | nil => rfl
  | cons m ms ih =>
    rw [mapValues_cons, lookup_cons, lookup_cons, ih]
    split <;> rfl

/-- Members of other names do not matter. -/
theorem lookup_filter {p : Text → Bool} {name : Text} (h : p name = true) (ms : List (Text × β)) :
    lookup name (ms.filter fun m => p m.1) = lookup name ms := by
  induction ms with
  | nil => rfl
  | cons m ms ih =>
    rw [List.filter_cons, lookup_cons]
    split
    · rw [lookup_cons, ih]
    · next hp =>
      have hne : m.1 ≠ name := fun heq => hp (heq.symm ▸ h)
      rw [ih, if_neg hne]

/-- What is kept of a list without repeated names when one name is picked. -/
theorem filter_name_eq (name : Text) {ms : List (Text × β)} (hnodup : (names ms).Nodup) :
    (ms.filter fun m => m.1 = name) = ((lookup name ms).map (name, ·)).toList := by
  induction ms with
  | nil => rfl
  | cons m ms ih =>
    obtain ⟨hm, hms⟩ := List.nodup_cons.mp hnodup
    rw [List.filter_cons, lookup_cons, ih hms]
    by_cases h : m.1 = name
    · have hnone : lookup name ms = none := lookup_eq_none_iff.mpr (h ▸ hm)
      subst h
      simp [hnone]
    · simp [h]

/-- Leaving members out repeats no name. -/
theorem nodup_names_filter (p : Text × β → Bool) {ms : List (Text × β)}
    (hnodup : (names ms).Nodup) : (names (ms.filter p)).Nodup :=
  hnodup.sublist (List.filter_sublist.map _)

/-! ## Building -/

/-- A value that is put under a name that is there takes its place; a new name comes last. -/
theorem names_put (name : Text) (v : β) (ms : List (Text × β)) :
    names (put name v ms) = if name ∈ names ms then names ms else names ms ++ [name] := by
  induction ms with
  | nil => simp [put]
  | cons m ms ih =>
    obtain ⟨n, w⟩ := m
    rw [put]
    by_cases h : n = name
    · simp [h]
    · rw [if_neg h, names_cons, ih, names_cons]
      by_cases hmem : name ∈ names ms <;> simp [hmem, Ne.symm h]

/-- Putting a value under a name repeats no name. -/
theorem nodup_names_put (name : Text) (v : β) {ms : List (Text × β)} (h : (names ms).Nodup) :
    (names (put name v ms)).Nodup := by
  rw [names_put]
  split
  · exact h
  · next hmem =>
    rw [List.nodup_append_comm, List.singleton_append]
    exact List.nodup_cons.mpr ⟨hmem, h⟩

/-- A new member comes last. -/
theorem put_of_not_mem {name : Text} (v : β) {ms : List (Text × β)} (h : name ∉ names ms) :
    put name v ms = ms ++ [(name, v)] := by
  induction ms with
  | nil => rfl
  | cons m ms ih =>
    obtain ⟨n, w⟩ := m
    rw [names_cons, List.mem_cons, not_or] at h
    rw [put, if_neg (Ne.symm h.1), ih h.2, List.cons_append]

/-- Only what is found under the name itself is another. -/
theorem lookup_put (name other : Text) (v : β) (ms : List (Text × β)) :
    lookup other (put name v ms) = if name = other then some v else lookup other ms := by
  induction ms with
  | nil => rfl
  | cons m ms ih =>
    obtain ⟨n, w⟩ := m
    rw [put]
    split
    · next h => subst h; simp only [lookup_cons]; split <;> rfl
    · next h =>
      simp only [lookup_cons, ih]
      -- a member in front hides the name in both lists
      by_cases hn : n = other
      · simp [hn, show name ≠ other from fun hno => h (hn.trans hno.symm)]
      · simp [hn]

/-- Putting a value and giving the members new values may change places. -/
theorem put_mapValues (f : β → γ) (name : Text) (v : β) (ms : List (Text × β)) :
    put name (f v) (mapValues f ms) = mapValues f (put name v ms) := by
  induction ms with
  | nil => rfl
  | cons m ms ih =>
    obtain ⟨n, w⟩ := m
    rw [mapValues_cons, put, put, ih]
    split <;> rfl

/-- A name is not repeated either when several members are put. -/
theorem nodup_foldl_put {ms : List (Text × β)} (h : (names ms).Nodup) (pairs : List (Text × β)) :
    (names (pairs.foldl (fun ms m => put m.1 m.2 ms) ms)).Nodup := by
  induction pairs generalizing ms with
  | nil => exact h
  | cons m pairs ih => exact ih (nodup_names_put m.1 m.2 h)

/-- An object never repeats a name. -/
theorem nodup_names_ofPairs (pairs : List (Text × β)) : (names (ofPairs pairs)).Nodup :=
  nodup_foldl_put (by simp) pairs

/-- Members with new names are put behind the others. -/
theorem foldl_put_eq_append {ms pairs : List (Text × β)} (h : (names (ms ++ pairs)).Nodup) :
    pairs.foldl (fun ms m => put m.1 m.2 ms) ms = ms ++ pairs := by
  induction pairs generalizing ms with
  | nil => simp
  | cons m pairs ih =>
    -- the name of the next member is none of those that are there already
    have hm : m.1 ∉ names ms := by
      rw [names_append, names_cons] at h
      exact fun hmem => List.disjoint_of_nodup_append h hmem (by simp)
    rw [List.foldl_cons, put_of_not_mem m.2 hm, ih (by simpa using h)]
    simp

/-- Members without repeated names are kept as they are. -/
theorem ofPairs_eq_self {pairs : List (Text × β)} (h : (names pairs).Nodup) :
    ofPairs pairs = pairs := by
  rw [ofPairs, foldl_put_eq_append (by simpa using h), List.nil_append]

/-- An object with new values is one of pairs with new values. -/
theorem ofPairs_mapValues (f : β → γ) (pairs : List (Text × β)) :
    ofPairs (mapValues f pairs) = mapValues f (ofPairs pairs) := by
  have hfold (ms : List (Text × β)) :
      (mapValues f pairs).foldl (fun ms m => put m.1 m.2 ms) (mapValues f ms) =
        mapValues f (pairs.foldl (fun ms m => put m.1 m.2 ms) ms) := by
    induction pairs generalizing ms with
    | nil => rfl
    | cons m pairs ih =>
      rw [mapValues_cons, List.foldl_cons, List.foldl_cons, ← ih, ← put_mapValues]
  exact hfold []

/-- Putting a member adds nothing but this member. -/
theorem mem_of_mem_put {m : Text × β} {name : Text} {v : β} {ms : List (Text × β)}
    (h : m ∈ put name v ms) : m ∈ ms ∨ m = (name, v) := by
  induction ms with
  | nil => exact .inr (List.mem_singleton.mp h)
  | cons q ms ih =>
    obtain ⟨n, w⟩ := q
    simp only [put] at h
    split at h
    · next heq =>
      subst heq
      exact (List.mem_cons.mp h).elim .inr fun h => .inl (List.mem_cons_of_mem _ h)
    · rcases List.mem_cons.mp h with rfl | h
      · exact .inl (by simp)
      · exact (ih h).imp_left (List.mem_cons_of_mem _)

/-- Each member is an old one or one of those that were put. -/
theorem mem_foldl_put {m : Text × β} {ms pairs : List (Text × β)}
    (h : m ∈ pairs.foldl (fun ms m => put m.1 m.2 ms) ms) : m ∈ ms ∨ m ∈ pairs := by
  induction pairs generalizing ms with
  | nil => exact .inl h
  | cons p pairs ih =>
    rcases ih h with hput | hpairs
    · rcases mem_of_mem_put hput with h | rfl
      · exact .inl h
      · exact .inr (by simp)
    · exact .inr (List.mem_cons_of_mem p hpairs)

/-- The members of an object are among the pairs that it was made of. -/
theorem mem_of_mem_ofPairs {m : Text × β} {pairs : List (Text × β)} (h : m ∈ ofPairs pairs) :
    m ∈ pairs := by
  simpa using mem_foldl_put h

/-! ## Sorting -/

/-- Members in the order of their names. -/
def byName (ms : List (Text × β)) : List (Text × β) :=
  ms.mergeSort fun m n => m.1.le n.1

/-- Sorting keeps the members. -/
theorem byName_perm (ms : List (Text × β)) : (byName ms).Perm ms :=
  List.mergeSort_perm ms _

/-- Sorted members are in the order of their names. -/
theorem byName_pairwise (ms : List (Text × β)) :
    (byName ms).Pairwise fun m n => m.1.le n.1 = true :=
  List.pairwise_mergeSort (fun m n o => Text.le_trans m.1 n.1 o.1)
    (fun m n => Text.le_total m.1 n.1) ms

@[simp] theorem byName_byName (ms : List (Text × β)) : byName (byName ms) = byName ms :=
  List.mergeSort_of_pairwise (byName_pairwise ms)

@[simp] theorem byName_nil : byName ([] : List (Text × β)) = [] :=
  List.mergeSort_nil

/-- The values do not matter to the order. -/
theorem mapValues_byName (f : β → γ) (ms : List (Text × β)) :
    mapValues f (byName ms) = byName (mapValues f ms) :=
  List.map_mergeSort fun _ _ _ _ => rfl

/-- **Two lists of the same members have the same sorted form** when no name is repeated. -/
theorem byName_eq_of_perm {ms ns : List (Text × β)} (hnodup : (names ms).Nodup)
    (h : ms.Perm ns) : byName ms = byName ns := by
  have hperm : (byName ms).Perm (byName ns) := (byName_perm ms).trans (h.trans (byName_perm ns).symm)
  apply hperm.eq_of_pairwise _ (byName_pairwise ms) (byName_pairwise ns)
  intro m n hm hn hmn hnm
  -- two members that come before each other share their name, and so are the same member
  have hname := Text.le_antisymm hmn hnm
  have hm' := lookup_of_mem hnodup ((byName_perm ms).subset hm)
  have hn' := lookup_of_mem hnodup (h.symm.subset ((byName_perm ns).subset hn))
  rw [hname, hn'] at hm'
  exact Prod.ext hname (Option.some.inj hm').symm

/-- Only lists of the same members have the same sorted form. -/
theorem perm_of_byName_eq {ms ns : List (Text × β)} (h : byName ms = byName ns) : ms.Perm ns :=
  (byName_perm ms).symm.trans (h ▸ byName_perm ns)

theorem names_byName_perm (ms : List (Text × β)) : (names (byName ms)).Perm (names ms) :=
  (byName_perm ms).map _

end Json

end SchemaGraft
