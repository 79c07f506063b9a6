import Mathlib.Tactic

/-!
# Outcomes

When a chain of computations that may fail has succeeded: every link of it has.  And when two chains have
agreed: every two links have.
-/

/-- What is related to a list comes from its items. -/
theorem List.Forall₂.exists_of_mem_right {α β : Type} {R : α → β → Prop} {as : List α}
    {bs : List β} (h : List.Forall₂ R as bs) {b : β} (hb : b ∈ bs) : ∃ a ∈ as, R a b := by
  induction h with
  | nil => cases hb
  | cons hhead _ ih =>
    rcases List.mem_cons.mp hb with rfl | hb
    · exact ⟨_, List.mem_cons_self .., hhead⟩
    · obtain ⟨a, ha, hab⟩ := ih hb
      exact ⟨a, List.mem_cons_of_mem _ ha, hab⟩

/-- Lists have the same images when their items have, one by one. -/
theorem List.map_eq_map_iff_forall₂ {α β γ : Type} {f : α → γ} {g : β → γ} {as : List α}
    {bs : List β} : as.map f = bs.map g ↔ List.Forall₂ (fun a b => f a = g b) as bs := by
  rw [← List.forall₂_eq_eq_eq, List.forall₂_map_left_iff, List.forall₂_map_right_iff]

/-- A list with an element added at the end holds an element there or before. -/
theorem List.append_singleton_eq_iff {α : Type} {xs ys zs : List α} {x y : α} :
    xs ++ [x] = ys ++ y :: zs ↔
      (xs = ys ∧ x = y ∧ zs = []) ∨ ∃ zs', zs = zs' ++ [x] ∧ xs = ys ++ y :: zs' := by
  constructor
  · intro h
    -- the last item is the one in question, or belongs to what follows it
    rcases zs.eq_nil_or_concat with rfl | ⟨zs', z, rfl⟩
    · obtain ⟨hxs, hx⟩ := List.append_inj' h rfl
      exact .inl ⟨hxs, (List.cons.inj hx).1, rfl⟩
    · rw [List.concat_eq_append, ← List.cons_append, ← List.append_assoc] at h
      obtain ⟨hxs, hx⟩ := List.append_inj' h rfl
      rw [(List.cons.inj hx).1, List.concat_eq_append]
      exact .inr ⟨zs', rfl, hxs⟩
  · rintro (⟨rfl, rfl, rfl⟩ | ⟨zs', rfl, rfl⟩)
    · rfl
    · rw [List.append_assoc, List.cons_append]

namespace Except

variable {ε α β : Type}

@[simp] theorem ok_bind (a : α) (f : α → Except ε β) : (Except.ok a >>= f) = f a := rfl

@[simp] theorem error_bind (e : ε) (f : α → Except ε β) : (Except.error e >>= f) = .error e := rfl

theorem pure_eq_ok (a : α) : (pure a : Except ε α) = .ok a := rfl

/-- What succeeds in two parts has succeeded in both. -/
theorem bind_eq_ok_iff {x : Except ε α} {f : α → Except ε β} {b : β} :
    x >>= f = .ok b ↔ ∃ a, x = .ok a ∧ f a = .ok b := by
  cases x with
  | error e => simp
  | ok a => simp

theorem map_eq_ok_iff {x : Except ε α} {f : α → β} {b : β} :
    x.map f = .ok b ↔ ∃ a, x = .ok a ∧ f a = b := by
  cases x with
  | error e => simp [Except.map]
  | ok a => simp [Except.map]

theorem map_eq_error_iff {x : Except ε α} {f : α → β} {e : ε} : x.map f = .error e ↔ x = .error e := by
  cases x with
  | error e' => simp [Except.map]
  | ok a => simp [Except.map]

theorem bind_pure_eq_ok_iff {x : Except ε α} {f : α → β} {b : β} :
    (x >>= fun a => pure (f a)) = .ok b ↔ ∃ a, x = .ok a ∧ f a = b := by
  rw [bind_eq_ok_iff]
  simp only [pure_eq_ok, Except.ok.injEq]

/-- A computation on every item succeeds when it does on each of them. -/
theorem mapM_eq_ok_iff {f : α → Except ε β} {as : List α} {bs : List β} :
    as.mapM f = .ok bs ↔ List.Forall₂ (fun a b => f a = .ok b) as bs := by
  induction as generalizing bs with
  | nil =>
    rw [List.mapM_nil, pure_eq_ok, Except.ok.injEq, List.forall₂_nil_left_iff, eq_comm]
  | cons a as ih =>
    rw [List.mapM_cons, bind_eq_ok_iff, List.forall₂_cons_left_iff]
    simp only [bind_pure_eq_ok_iff, ih]
    constructor
    · rintro ⟨b, hb, bs', hbs, rfl⟩
      exact ⟨b, bs', hb, hbs, rfl⟩
    · rintro ⟨b, bs', hb, hbs, rfl⟩
      exact ⟨b, hb, bs', hbs, rfl⟩

/-- Each outcome of a list is that of an item. -/
theorem exists_of_mem_mapM {f : α → Except ε β} {as : List α} {bs : List β}
    (h : as.mapM f = .ok bs) {b : β} (hb : b ∈ bs) : ∃ a ∈ as, f a = .ok b :=
  (mapM_eq_ok_iff.mp h).exists_of_mem_right hb

/-- A list succeeds when each of its items does. -/
theorem exists_mapM_iff {f : α → Except ε β} {as : List α} :
    (∃ bs, as.mapM f = .ok bs) ↔ ∀ a ∈ as, ∃ b, f a = .ok b := by
  induction as with
  | nil => simp [List.mapM_nil, pure_eq_ok]
  | cons a as ih =>
    rw [List.forall_mem_cons, ← ih]
    simp only [List.mapM_cons, bind_eq_ok_iff, pure_eq_ok, Except.ok.injEq]
    constructor
    · rintro ⟨_, b, hb, bs, hbs, -⟩
      exact ⟨⟨b, hb⟩, bs, hbs⟩
    · rintro ⟨⟨b, hb⟩, bs, hbs⟩
      exact ⟨_, b, hb, bs, hbs, rfl⟩

theorem bind_pure_eq_error_iff {x : Except ε α} {f : α → β} {e : ε} :
    (x >>= fun a => pure (f a)) = .error e ↔ x = .error e := by
  cases x with
  | error e' => simp
  | ok a => simp [pure_eq_ok]

/-- A computation on every item fails as it does on one of them. -/
theorem exists_of_mapM_eq_error {f : α → Except ε β} {as : List α} {e : ε}
    (h : as.mapM f = .error e) : ∃ a ∈ as, f a = .error e := by
  induction as with
  | nil => cases h
  | cons a as ih =>
    rw [List.mapM_cons] at h
    -- the first item that fails is the one that counts
    cases ha : f a with
    | error e' =>
      rw [ha] at h
      cases h
      exact ⟨a, List.mem_cons_self .., ha⟩
    | ok b =>
      rw [ha, ok_bind, bind_pure_eq_error_iff] at h
      obtain ⟨a', ha', h⟩ := ih h
      exact ⟨a', List.mem_cons_of_mem _ ha', h⟩

/-- A computation that undoes `g` on every item gives the items back. -/
theorem mapM_map_eq_ok {f : α → Except ε β} {g : β → α} {bs : List β}
    (h : ∀ b ∈ bs, f (g b) = .ok b) : (bs.map g).mapM f = .ok bs := by
  rw [mapM_eq_ok_iff, List.forall₂_map_left_iff, List.forall₂_same]
  exact h

/-! ## Two Outcomes -/

/-- Two outcomes that agree: successes with related values, or failures with related faults. -/
inductive LiftRel {ε ε' α α' : Type} (E : ε → ε' → Prop) (R : α → α' → Prop) :
    Except ε α → Except ε' α' → Prop
  /-- Both succeed. -/
  | ok {a : α} {a' : α'} (h : R a a') : LiftRel E R (.ok a) (.ok a')
  /-- Both fail. -/
  | error {e : ε} {e' : ε'} (h : E e e') : LiftRel E R (.error e) (.error e')

namespace LiftRel

variable {ε' α' β' : Type} {E : ε → ε' → Prop} {R : α → α' → Prop} {S : β → β' → Prop}
  {x : Except ε α} {x' : Except ε' α'}

/-- Related outcomes go on in related ways. -/
theorem bind {f : α → Except ε β} {f' : α' → Except ε' β'} (h : LiftRel E R x x')
    (hf : ∀ a a', R a a' → LiftRel E S (f a) (f' a')) : LiftRel E S (x >>= f) (x' >>= f') := by
  cases h with
  | ok h => exact hf _ _ h
  | error h => exact .error h

/-- Related outcomes have related images. -/
theorem map {f : α → β} {f' : α' → β'} (h : LiftRel E R x x') (hf : ∀ a a', R a a' → S (f a) (f' a')) :
    LiftRel E S (x.map f) (x'.map f') := by
  cases h with
  | ok h => exact .ok (hf _ _ h)
  | error h => exact .error h

/-- Related faults may be turned into others that are related. -/
theorem mapError {ε₁ ε₁' : Type} {E₁ : ε₁ → ε₁' → Prop} {f : ε → ε₁} {f' : ε' → ε₁'}
    (h : LiftRel E R x x') (hf : ∀ e e', E e e' → E₁ (f e) (f' e')) :
    LiftRel E₁ R (x.mapError f) (x'.mapError f') := by
  cases h with
  | ok h => exact .ok h
  | error h => exact .error (hf _ _ h)

theorem mono {T : α → α' → Prop} (h : LiftRel E R x x') (hRT : ∀ a a', R a a' → T a a') :
    LiftRel E T x x' := by
  cases h with
  | ok h => exact .ok (hRT _ _ h)
  | error h => exact .error h

theorem mono_error {F : ε → ε' → Prop} (h : LiftRel E R x x') (hEF : ∀ e e', E e e' → F e e') :
    LiftRel F R x x' := by
  cases h with
  | ok h => exact .ok h
  | error h => exact .error (hEF _ _ h)

/-- What agrees with a success is one. -/
theorem exists_ok {a : α} (h : LiftRel E R (.ok a) x') : ∃ a', x' = .ok a' ∧ R a a' := by
  cases h with
  | ok h => exact ⟨_, rfl, h⟩

/-- Of values that agree it is known where they come from. -/
theorem attach (h : LiftRel E R x x') :
    LiftRel E (fun a a' => x = .ok a ∧ x' = .ok a' ∧ R a a') x x' := by
  cases h with
  | ok h => exact .ok ⟨rfl, rfl, h⟩
  | error h => exact .error h

/-- Computations on the items of two lists agree when they agree item by item. -/
theorem mapM {f : α → Except ε β} {f' : α' → Except ε' β'} {as : List α} {as' : List α'}
    (h : List.Forall₂ (fun a a' => LiftRel E S (f a) (f' a')) as as') :
    LiftRel E (List.Forall₂ S) (as.mapM f) (as'.mapM f') := by
  induction h with
  | nil => exact .ok .nil
  | cons hhead _ ih =>
    rw [List.mapM_cons, List.mapM_cons]
    exact hhead.bind fun b b' hb => ih.bind fun bs bs' hbs => .ok (.cons hb hbs)

end LiftRel

/-- Outcomes that agree in what `f` makes of them. -/
theorem map_eq_map_iff {f : α → β} {x y : Except ε α} :
    x.map f = y.map f ↔ LiftRel Eq (fun a b => f a = f b) x y := by
  constructor
  · intro h
    cases x <;> cases y
    · cases h
      exact .error rfl
    · cases h
    · cases h
    · exact .ok (Except.ok.inj h)
  · intro h
    cases h with
    | ok h => exact congrArg Except.ok h
    | error h => exact congrArg Except.error h

end Except
