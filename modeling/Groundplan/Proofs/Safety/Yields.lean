import Groundplan.Problem
import Groundplan.Proofs.Outcome

/-!
# What Computations Yield

A computation yields results in `P` and defects in `D`: when it succeeds its result is one of `P`,
when it comes to a defect that is one of `D`, and errors are always allowed.  Sequences, maps and
loops of such computations are such computations again.

## Main Statements

- `Yields.bind`: sequences, where the second step knows the outcome of the first
- `yields_foldlM`: loops with an invariant
-/

namespace Groundplan

variable {α β γ : Type} {D D' : Defect → Prop} {P P' : α → Prop} {Q : β → Prop}

/-- The results are in `P` and the defects in `D`. -/
structure Yields (D : Defect → Prop) (P : α → Prop) (x : Outcome α) : Prop where
  result : ∀ a, x = .ok a → P a
  defect : ∀ d, x = .error (.defect d) → D d

/-- The defects are in `D`, whatever the results are. -/
abbrev Raises (D : Defect → Prop) (x : Outcome α) : Prop :=
  Yields D (fun _ => True) x

namespace Yields

theorem ok {a : α} (h : P a) : Yields D P (.ok a) := by
  constructor
  · intro a' ha
    cases ha
    exact h
  · intro d hd
    cases hd

theorem pure {a : α} (h : P a) : Yields D P (Pure.pure a) :=
  ok h

theorem ofDefect {d : Defect} (h : D d) : Yields D P (.error (.defect d)) := by
  constructor
  · intro a ha
    cases ha
  · intro d' hd
    cases hd
    exact h

theorem ofError {e : EvalError} : Yields D P (.error (.error e)) := by
  constructor
  · intro a ha
    cases ha
  · intro d hd
    cases hd

theorem fail {p : Problem} {span : Option Span} : Yields D P (Groundplan.fail p span) :=
  ofError

theorem mono {x : Outcome α} (h : Yields D P x) (hD : ∀ d, D d → D' d)
    (hP : ∀ a, P a → P' a) : Yields D' P' x :=
  ⟨fun a ha => hP a (h.result a ha), fun d hd => hD d (h.defect d hd)⟩

/-- The second step may use that the first one has succeeded. -/
theorem bind {x : Outcome α} {f : α → Outcome β} (hx : Yields D P x)
    (hnext : ∀ a, x = .ok a → P a → Yields D Q (f a)) : Yields D Q (x >>= f) := by
  match x with
  | .ok a => exact hnext a rfl (hx.result a rfl)
  | .error (.error _) => exact ofError
  | .error (.defect d) => exact ofDefect (hx.defect d rfl)

/-- After a problem nothing else comes. -/
theorem fail_bind {p : Problem} {span : Option Span} {f : α → Outcome β} :
    Yields D Q (Groundplan.fail p span >>= f) :=
  ofError

theorem map {x : Outcome α} {f : α → β} (hx : Yields D P x) (hmap : ∀ a, P a → Q (f a)) :
    Yields D Q (x.map f) := by
  match x with
  | .ok a => exact ok (hmap a (hx.result a rfl))
  | .error (.error _) => exact ofError
  | .error (.defect d) => exact ofDefect (hx.defect d rfl)

theorem ite {c : Prop} [Decidable c] {x y : Outcome α} (hx : c → Yields D P x)
    (hy : ¬ c → Yields D P y) : Yields D P (if c then x else y) := by
  split
  · exact hx ‹_›
  · exact hy ‹_›

end Yields

/-! ## Lists -/

theorem yields_mapM {f : α → Outcome β} {as : List α} (h : ∀ a ∈ as, Yields D Q (f a)) :
    Yields D (fun bs => ∀ b ∈ bs, Q b) (as.mapM f) := by
  induction as with
  | nil => exact .pure fun b hb => absurd hb List.not_mem_nil
  | cons a as ih =>
    obtain ⟨ha, has⟩ := List.forall_mem_cons.mp h
    rw [List.mapM_cons]
    refine ha.bind fun b _ hb => (ih has).bind fun bs _ hbs => ?_
    exact .pure (List.forall_mem_cons.mpr ⟨hb, hbs⟩)

/-- A loop yields what its steps keep. -/
theorem yields_foldlM {f : β → α → Outcome β} {as : List α} {b : β} (hstart : Q b)
    (hstep : ∀ a ∈ as, ∀ b, Q b → Yields D Q (f b a)) : Yields D Q (as.foldlM f b) := by
  induction as generalizing b with
  | nil => exact .pure hstart
  | cons a as ih =>
    obtain ⟨ha, has⟩ := List.forall_mem_cons.mp hstep
    rw [List.foldlM_cons]
    exact (ha b hstart).bind fun b' _ hb' => ih hb' has

end Groundplan
