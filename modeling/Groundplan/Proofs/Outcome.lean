import Mathlib.Data.List.Forall2

/-!
# Outcomes of Computations

A computation `x` foresees `y` when every success of `y` was a success of `x` before, with
related results.  Nothing is asked of `y` when `x` fails except that it fails as well, and
`y` may always fail.  This is how a computation on partly unknown data relates to the same
computation after some of the data has been learnt.

## Main Statements

- `bind_eq_ok_iff`, `bind_eq_error_iff`: when a sequence succeeds, and when it fails
- `Foresees.bind`: the relation passes through sequences of computations
- `foresees_foldlM`: it passes through loops whose states are related
-/

namespace Groundplan

variable {ε α β γ δ : Type}

/-- A sequence succeeds if both of its steps do. -/
theorem bind_eq_ok_iff {x : Except ε α} {f : α → Except ε β} {b : β} :
    x >>= f = .ok b ↔ ∃ a, x = .ok a ∧ f a = .ok b := by
  cases x with
  | error e =>
    constructor
    · intro h
      cases h
    · rintro ⟨a, ha, _⟩
      cases ha
  | ok a =>
    constructor
    · exact fun h => ⟨a, rfl, h⟩
    · rintro ⟨a', ha, h⟩
      cases ha
      exact h

/-- A sequence fails as the first one of its steps that does. -/
theorem bind_eq_error_iff {x : Except ε α} {f : α → Except ε β} {e : ε} :
    x >>= f = .error e ↔ x = .error e ∨ ∃ a, x = .ok a ∧ f a = .error e := by
  cases x with
  | error e' =>
    constructor
    · intro h
      cases h
      exact .inl rfl
    · rintro (h | ⟨a, ha, _⟩)
      · cases h
        rfl
      · cases ha
  | ok a =>
    constructor
    · exact fun h => .inr ⟨a, rfl, h⟩
    · rintro (h | ⟨a', ha, h⟩)
      · cases h
      · cases ha
        exact h

/-- A mapped outcome succeeds if the outcome does. -/
theorem map_eq_ok_iff {x : Except ε α} {f : α → β} {b : β} :
    x.map f = .ok b ↔ ∃ a, x = .ok a ∧ f a = b := by
  cases x <;> simp [Except.map]

theorem toOption_eq_some_iff {x : Except ε α} {a : α} : x.toOption = some a ↔ x = .ok a := by
  cases x <;> simp [Except.toOption]

/-- An outcome that is no success is a failure. -/
theorem exists_error_iff {x : Except ε α} : (∃ e, x = .error e) ↔ ¬ ∃ a, x = .ok a := by
  cases x <;> simp

/-! ## Foresight -/

/-- Every success of `y` was a success of `x` before, with a related result. -/
def Foresees (R : α → β → Prop) (x : Except ε α) (y : Except ε β) : Prop :=
  ∀ b, y = .ok b → ∃ a, x = .ok a ∧ R a b

namespace Foresees

variable {R : α → β → Prop} {S : γ → δ → Prop}

theorem ok {a : α} {b : β} (h : R a b) :
    Foresees R (.ok a : Except ε α) (.ok b : Except ε β) := by
  intro b' hb
  cases hb
  exact ⟨a, rfl, h⟩

theorem pure {a : α} {b : β} (h : R a b) :
    Foresees R (Pure.pure a : Except ε α) (Pure.pure b : Except ε β) :=
  ok h

/-- A failure is foreseen by anything. -/
theorem error (x : Except ε α) (e : ε) : Foresees R x (.error e : Except ε β) := by
  intro b hb
  cases hb

/-- The second computation may do more, as long as the rest of it is foreseen. -/
theorem after {x : Except ε γ} {y : Except ε β} {g : β → Except ε δ} {S : γ → δ → Prop}
    (hnext : ∀ b, Foresees S x (g b)) : Foresees S x (y >>= g) := by
  cases y with
  | error e => exact error x e
  | ok b => exact hnext b

/-- What always fails in the end is foreseen by anything. -/
theorem error_bind (x : Except ε γ) {y : Except ε β} {g : β → Except ε δ} {S : γ → δ → Prop}
    (hfails : ∀ b, ∃ e, g b = .error e) : Foresees S x (y >>= g) := by
  refine after fun b => ?_
  obtain ⟨e, he⟩ := hfails b
  rw [he]
  exact error x e

/-- A computation that succeeds with a result related to everything foresees anything. -/
theorem of_forall {a : α} (y : Except ε β) (h : ∀ b, R a b) : Foresees R (.ok a) y :=
  fun b _ => ⟨a, rfl, h b⟩

theorem of_eq {x : Except ε α} {R : α → α → Prop} (h : ∀ a, R a a) : Foresees R x x :=
  fun a ha => ⟨a, ha, h a⟩

theorem mono {R' : α → β → Prop} {x : Except ε α} {y : Except ε β} (h : Foresees R x y)
    (hR : ∀ a b, R a b → R' a b) : Foresees R' x y := by
  intro b hb
  obtain ⟨a, ha, hab⟩ := h b hb
  exact ⟨a, ha, hR a b hab⟩

/-- What comes next may assume that the first computations have succeeded. -/
theorem bind {x : Except ε α} {y : Except ε β} {f : α → Except ε γ} {g : β → Except ε δ}
    (h : Foresees R x y) (hnext : ∀ a b, R a b → Foresees S (f a) (g b)) :
    Foresees S (x >>= f) (y >>= g) := by
  intro d hd
  obtain ⟨b, hy, hd⟩ := bind_eq_ok_iff.mp hd
  obtain ⟨a, rfl, hab⟩ := h b hy
  exact hnext a b hab d hd

theorem map {x : Except ε α} {y : Except ε β} {f : α → γ} {g : β → δ} (h : Foresees R x y)
    (hmap : ∀ a b, R a b → S (f a) (g b)) : Foresees S (x.map f) (y.map g) := by
  intro d hd
  cases hy : y with
  | error e =>
    rw [hy] at hd
    cases hd
  | ok b =>
    obtain ⟨a, rfl, hab⟩ := h b hy
    rw [hy] at hd
    cases hd
    exact ⟨f a, rfl, hmap a b hab⟩

/-- The same check on both sides guards what comes next. -/
theorem guard {x : Except ε α} {f : α → Except ε γ} {g : α → Except ε δ}
    (hnext : ∀ a, x = .ok a → Foresees S (f a) (g a)) : Foresees S (x >>= f) (x >>= g) := by
  cases x with
  | error e => exact error _ e
  | ok a => exact hnext a rfl

end Foresees

/-! ## Lists -/

/-- A map whose results are known. -/
theorem mapM_eq_ok {f : α → Except ε β} {g : α → β} {as : List α}
    (h : ∀ a ∈ as, f a = .ok (g a)) : as.mapM f = .ok (as.map g) := by
  induction as with
  | nil => rfl
  | cons a as ih =>
    obtain ⟨ha, has⟩ := List.forall_mem_cons.mp h
    rw [List.mapM_cons, ha, ih has]
    rfl

/-- A map succeeds if it does at every element. -/
theorem exists_mapM_eq_ok {R : α → β → Prop} {f : α → Except ε β} {as : List α}
    (h : ∀ a ∈ as, ∃ b, f a = .ok b ∧ R a b) :
    ∃ bs, as.mapM f = .ok bs ∧ List.Forall₂ R as bs := by
  induction as with
  | nil => exact ⟨[], rfl, .nil⟩
  | cons a as ih =>
    obtain ⟨⟨b, hb, hab⟩, has⟩ := List.forall_mem_cons.mp h
    obtain ⟨bs, hbs, habs⟩ := ih has
    refine ⟨b :: bs, ?_, .cons hab habs⟩
    rw [List.mapM_cons, hb, hbs]
    rfl

theorem foresees_mapM {R : α → β → Prop} {S : γ → δ → Prop} {f : α → Except ε γ}
    {g : β → Except ε δ} {as : List α} {bs : List β} (h : List.Forall₂ R as bs)
    (hnext : ∀ a b, R a b → Foresees S (f a) (g b)) :
    Foresees (List.Forall₂ S) (as.mapM f) (bs.mapM g) := by
  induction h with
  | nil => exact Foresees.pure .nil
  | cons hhead _ ih =>
    simp only [List.mapM_cons]
    refine (hnext _ _ hhead).bind fun c d hcd => ih.bind fun cs ds hcds => ?_
    exact Foresees.pure (.cons hcd hcds)

/-- Loops over related elements keep their states related. -/
theorem foresees_foldlM {R : α → β → Prop} {S : γ → δ → Prop} {f : γ → α → Except ε γ}
    {g : δ → β → Except ε δ} {as : List α} {bs : List β} (h : List.Forall₂ R as bs)
    (hstep : ∀ c d a b, S c d → R a b → Foresees S (f c a) (g d b)) {c : γ} {d : δ}
    (hstart : S c d) : Foresees S (as.foldlM f c) (bs.foldlM g d) := by
  induction h generalizing c d with
  | nil => exact Foresees.pure hstart
  | cons hhead _ ih =>
    simp only [List.foldlM_cons]
    exact (hstep c d _ _ hstart hhead).bind fun _ _ hcd => ih hcd

end Groundplan
