import Mathlib.Data.List.Forall2

/-!
# Computations with the Same Outcome

Two computations concur when both succeed with related results, or both fail with related faults.
Sequences, maps and loops of computations that concur do so again.

## Main Definitions

- `Concur`: the relation, given those of faults and of results

## Main Statements

- `Concur.bind`, `Concur.bind_same`: sequences
- `concur_foldlM`: loops whose states are related
- `Concur.mapM_same`, `Concur.foldlM_same`: the same elements on both sides
-/

namespace Groundplan

variable {ε α β γ δ : Type} {E : ε → ε → Prop} {R : α → β → Prop} {S : γ → δ → Prop}

/-- Both computations succeed with related results, or both fail with related faults. -/
inductive Concur (E : ε → ε → Prop) (R : α → β → Prop) : Except ε α → Except ε β → Prop
  | ok {a : α} {b : β} (h : R a b) : Concur E R (.ok a) (.ok b)
  | error {e f : ε} (h : E e f) : Concur E R (.error e) (.error f)

namespace Concur

theorem pure {a : α} {b : β} (h : R a b) :
    Concur E R (Pure.pure a : Except ε α) (Pure.pure b : Except ε β) :=
  .ok h

theorem mono {R' : α → β → Prop} {x : Except ε α} {y : Except ε β} (h : Concur E R x y)
    (hR : ∀ a b, R a b → R' a b) : Concur E R' x y := by
  cases h with
  | ok hab => exact .ok (hR _ _ hab)
  | error hef => exact .error hef

theorem trans {E' E'' : ε → ε → Prop} {S : β → γ → Prop} {T : α → γ → Prop} {x : Except ε α}
    {y : Except ε β} {z : Except ε γ} (h : Concur E R x y) (h' : Concur E' S y z)
    (hE : ∀ e f g, E e f → E' f g → E'' e g) (hT : ∀ a b c, R a b → S b c → T a c) :
    Concur E'' T x z := by
  cases h with
  | ok hab =>
    cases h' with
    | ok hbc => exact .ok (hT _ _ _ hab hbc)
  | error hef =>
    cases h' with
    | error hfg => exact .error (hE _ _ _ hef hfg)

/-- What comes next may assume that the first computations have succeeded. -/
theorem bind {x : Except ε α} {y : Except ε β} {f : α → Except ε γ} {g : β → Except ε δ}
    (h : Concur E R x y)
    (hnext : ∀ a b, x = .ok a → y = .ok b → R a b → Concur E S (f a) (g b)) :
    Concur E S (x >>= f) (y >>= g) := by
  cases h with
  | ok hab => exact hnext _ _ rfl rfl hab
  | error hef => exact .error hef

/-- What comes next is given the same result on both sides. -/
theorem bind_same {x y : Except ε α} {f : α → Except ε γ} {g : α → Except ε δ}
    (h : Concur E Eq x y) (hnext : ∀ a, Concur E S (f a) (g a)) :
    Concur E S (x >>= f) (y >>= g) := by
  refine h.bind ?_
  rintro a _ - - rfl
  exact hnext a

theorem map {x : Except ε α} {y : Except ε β} {f : α → γ} {g : β → δ} (h : Concur E R x y)
    (hmap : ∀ a b, R a b → S (f a) (g b)) : Concur E S (x.map f) (y.map g) := by
  cases h with
  | ok hab => exact .ok (hmap _ _ hab)
  | error hef => exact .error hef

/-- Faults may be told in other words. -/
theorem mapError {ε' : Type} {E' : ε' → ε' → Prop} {x : Except ε α} {y : Except ε β}
    {f : ε → ε'} (h : Concur E R x y) (hmap : ∀ e e', E e e' → E' (f e) (f e')) :
    Concur E' R (x.mapError f) (y.mapError f) := by
  cases h with
  | ok hab => exact .ok hab
  | error hef => exact .error (hmap _ _ hef)

/-- The same test on both sides. -/
theorem ite {c c' : Prop} [Decidable c] [Decidable c'] {x x' : Except ε α} {y y' : Except ε β}
    (hc : c ↔ c') (hthen : c → Concur E R x y) (helse : ¬ c → Concur E R x' y') :
    Concur E R (if c then x else x') (if c' then y else y') := by
  by_cases h : c
  · rw [if_pos h, if_pos (hc.mp h)]
    exact hthen h
  · rw [if_neg h, if_neg (hc.not.mp h)]
    exact helse h

end Concur

/-! ## Lists -/

theorem concur_mapM {f : α → Except ε γ} {g : β → Except ε δ} {as : List α} {bs : List β}
    (h : List.Forall₂ R as bs) (hnext : ∀ a b, R a b → Concur E S (f a) (g b)) :
    Concur E (List.Forall₂ S) (as.mapM f) (bs.mapM g) := by
  induction h with
  | nil => exact .pure .nil
  | cons hhead _ ih =>
    simp only [List.mapM_cons]
    refine (hnext _ _ hhead).bind fun c d _ _ hcd => ih.bind fun cs ds _ _ hcds => ?_
    exact .pure (.cons hcd hcds)

/-- Loops over related elements keep their states related. -/
theorem concur_foldlM {f : γ → α → Except ε γ} {g : δ → β → Except ε δ} {as : List α}
    {bs : List β} (h : List.Forall₂ R as bs)
    (hstep : ∀ c d a b, S c d → R a b → Concur E S (f c a) (g d b)) {c : γ} {d : δ}
    (hstart : S c d) : Concur E S (as.foldlM f c) (bs.foldlM g d) := by
  induction h generalizing c d with
  | nil => exact .pure hstart
  | cons hhead _ ih =>
    simp only [List.foldlM_cons]
    exact (hstep c d _ _ hstart hhead).bind fun _ _ _ _ hcd => ih hcd

namespace Concur

theorem mapM_same {f g : α → Except ε γ} (h : ∀ a, Concur E Eq (f a) (g a)) (as : List α) :
    Concur E Eq (as.mapM f) (as.mapM g) := by
  have hvalues : Concur E (List.Forall₂ Eq) (as.mapM f) (as.mapM g) := by
    refine concur_mapM (List.forall₂_refl as : List.Forall₂ Eq as as) ?_
    rintro a _ rfl
    exact h a
  rwa [List.forall₂_eq_eq_eq] at hvalues

/-- Loops over the same elements whose turns agree from every state. -/
theorem foldlM_same {f g : γ → α → Except ε γ} (h : ∀ c a, Concur E Eq (f c a) (g c a))
    (as : List α) (start : γ) : Concur E Eq (as.foldlM f start) (as.foldlM g start) := by
  refine concur_foldlM (List.forall₂_refl as : List.Forall₂ Eq as as) ?_ rfl
  rintro c _ a _ rfl rfl
  exact h c a

end Concur

end Groundplan
