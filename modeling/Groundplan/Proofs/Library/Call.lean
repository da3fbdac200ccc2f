import Groundplan.Library.Standard
import Groundplan.Proofs.Outcome

/-!
# Checked Calls

A call whose arguments pass the checks, none of them unknown where the function would not be run,
comes to what the function does: a value is passed on, a problem gets the place of the call, and a
signal of the arithmetic becomes a problem.

## Main Definitions

- `Library.Answers`: what a call comes to

## Main Statements

- `Signature.argumentsProblem?_variadic`: arguments of a variadic parameter
- `Library.call_eq_ok_iff`: a call returns what the function returns
-/

namespace Groundplan

/-! ## Signatures -/

namespace Signature

variable {s : Signature} {p : Param} {place : Nat} {args : List Value}

/-- Arguments that all fit the variadic parameter pass the checks. -/
theorem argumentsProblem?_variadic (hplace : s.params.length ≤ place)
    (hvariadic : s.variadic = some p)
    (hargs : ∀ arg ∈ args, ∀ place, s.argumentProblem? place p arg = none) :
    s.argumentsProblem? place args = none := by
  induction args generalizing place with
  | nil => rfl
  | cons arg args ih =>
    obtain ⟨harg, hrest⟩ := List.forall_mem_cons.mp hargs
    have hparam : s.paramAt place = some p := by
      rw [paramAt, List.getElem?_eq_none hplace, hvariadic, Option.none_or]
    simp only [argumentsProblem?, hparam, Option.bind_some, harg,
      ih (Nat.le_succ_of_le hplace) hrest]

end Signature

/-! ## Functions -/

namespace Function

variable {f : Function} {args : List Value} (hchecked : f.signature.problem? args = none)
  (hknown : f.signature.isUnknownCall args = false)

include hchecked hknown

theorem invoke_eq_ok {v : Value} (hrun : f.run args = .ok v) (span : Option Span) :
    f.invoke args span = .ok v := by
  simp only [invoke, hchecked, hknown, hrun]
  rfl

/-- A problem of the function gets the place of the call. -/
theorem invoke_eq_fail {p : Problem} (hrun : f.run args = fail p none) (span : Option Span) :
    f.invoke args span = fail p span := by
  simp only [invoke, hchecked, hknown, hrun, fail]
  rfl

/-- Nothing is returned that the function has not returned. -/
theorem invoke_eq_ok_iff {v : Value} {span : Option Span} :
    f.invoke args span = .ok v ↔ f.run args = .ok v := by
  refine ⟨fun h => ?_, fun hrun => invoke_eq_ok hchecked hknown hrun span⟩
  simp only [invoke, hchecked, hknown, Bool.false_eq_true, if_false] at h
  split at h
  · cases h
  · cases h
  · exact h

end Function

/-! ## Calls by name -/

namespace Library

/-- Calls of a function come to an outcome: its value, or its problem at the place of the call. -/
structure Answers (name : String) (args : List Value) (outcome : Outcome Value) : Prop where
  value : ∀ v, outcome = .ok v → ∀ span, standard.call name args span = .ok v
  problem : ∀ p, outcome = fail p none → ∀ span, standard.call name args span = fail p span

theorem Answers.of_find? {name : String} {f : Function} (hfound : standard.find? name = some f)
    {args : List Value} (hchecked : f.signature.problem? args = none)
    (hknown : f.signature.isUnknownCall args = false) : Answers name args (f.run args) where
  value v hv span := by
    simp only [call, hfound]
    exact Function.invoke_eq_ok hchecked hknown hv span
  problem p hp span := by
    simp only [call, hfound]
    exact Function.invoke_eq_fail hchecked hknown hp span

/-- A call returns what the function returns. -/
theorem call_eq_ok_iff (name : String) (args : List Value) {f : Function}
    (hfound : standard.find? name = some f) (hchecked : f.signature.problem? args = none)
    (hknown : f.signature.isUnknownCall args = false) {v : Value} {span : Option Span} :
    standard.call name args span = .ok v ↔ f.run args = .ok v := by
  simp only [call, hfound]
  exact Function.invoke_eq_ok_iff hchecked hknown

end Library

end Groundplan
