import Groundplan.Proofs.Safety.Evaluation

/-!
# What Escapes from Evaluation

With the standard library, a well-formed expression evaluates to a value or fails with an error, up
to three kinds of defects: a number that is needed as text and too great to be written, an infinite
power, and an integer with too many digits in a message or in a format.  Each of them comes from a
construct that the expression must hold.  Where no defect escapes, `can` has a truth value and `try`
absorbs the failure of its first argument.

## Main Definitions

- `Expr.HasCall`: a call of a function inside an expression
- `Expr.IsContained`: an expression without the constructs from which defects escape

## Main Statements

- `evaluate_escapes`: which defects escape from which expressions
- `can_passes_infinite_power`: `can` does not absorb an infinite power
-/

namespace Groundplan

namespace Expr

/-- Somewhere inside the expression a function is called. -/
def HasCall (e : Expr) (name : String) : Prop :=
  ∃ span arguments, Expr.call span name arguments ∈ e.subexpressions

/-- The expression needs no text of a value that it computes, and it calls no function that raises
a power or writes or reads integers. -/
def IsContained (e : Expr) : Prop :=
  (∀ x ∈ e.subexpressions, x.writes = false)
    ∧ ∀ name ∈ "pow" :: Library.digitFunctions, ¬ e.HasCall name

/-- The defects that may escape from an expression. -/
def Escapes (e : Expr) (d : Defect) : Prop :=
  (d = .signal .overflow ∧ ∃ x ∈ e.subexpressions, x.writes = true)
    ∨ ((∃ shown, d = .notFinite shown) ∧ e.HasCall "pow")
    ∨ ((∃ given, d = .tooManyDigits given) ∧ ∃ name ∈ Library.digitFunctions, e.HasCall name)

theorem IsContained.not_escapes {e : Expr} (h : e.IsContained) (d : Defect) : ¬ e.Escapes d := by
  rintro (⟨_, x, hx, hwrites⟩ | ⟨_, hpow⟩ | ⟨_, name, hname, hcall⟩)
  · rw [h.1 x hx] at hwrites
    cases hwrites
  · exact h.2 "pow" List.mem_cons_self hpow
  · exact h.2 name (List.mem_cons_of_mem _ hname) hcall

/-- The defects of a called function may escape. -/
theorem HasCall.escapes {e : Expr} {name : String} (h : e.HasCall name) {d : Defect}
    (hd : Library.EscapesFrom name d) : e.Escapes d := by
  cases d with
  | notFinite shown => exact .inr (.inl ⟨⟨shown, rfl⟩, hd ▸ h⟩)
  | tooManyDigits given => exact .inr (.inr ⟨⟨given, rfl⟩, name, hd, h⟩)
  | binaryOperator | unaryOperator | strayDirective | signal | truthValue => exact hd.elim

/-- Every expression inside a well-formed one is admitted by the defects that may escape. -/
theorem IsWellFormed.admitted {e : Expr} (h : e.IsWellFormed) :
    ∀ x ∈ e.subexpressions, x.Admitted Library.standard e.Escapes fun _ => True := by
  intro x hx
  have hproper : x.isProper = false → ∀ d, e.Escapes d := fun himproper => by
    rw [h x hx] at himproper
    cases himproper
  refine ⟨hproper, fun hwrites => .inl ⟨rfl, x, hx, hwrites⟩, ?_⟩
  cases x with
  | call span function arguments =>
    intro _ _ args span' _
    exact (Library.call_raises function args span').mono
      (fun d hd => HasCall.escapes ⟨span, arguments, hx⟩ hd) fun _ h => h
  | _ => trivial

end Expr

/-! ## The calls that absorb errors -/

variable {library : Library} {scope : Scope} {e fallback : Expr}

/-- A call of `can` tells whether its argument has a value, unless that comes to a defect. -/
theorem evaluate_can (hregular : ∀ d, e.evaluate library scope ≠ .error (.defect d))
    (span : Option Span) :
    (Expr.call span "can" [e]).evaluate library scope
      = .ok (.bool (e.evaluate library scope).isOk) := by
  rw [Expr.evaluate, if_neg (by decide), if_pos rfl]
  match h : e.evaluate library scope with
  | .ok v => rfl
  | .error (.error _) => rfl
  | .error (.defect d) => exact absurd h (hregular d)

/-- A call of `try` has the value of its first argument or else of its second one, unless the first
one comes to a defect. -/
theorem evaluate_try (hregular : ∀ d, e.evaluate library scope ≠ .error (.defect d))
    (span : Option Span) {v : Value} (hfallback : fallback.evaluate library scope = .ok v) :
    (Expr.call span "try" [e, fallback]).evaluate library scope
      = .ok ((e.evaluate library scope).toOption.getD v) := by
  rw [Expr.evaluate, if_pos rfl, if_neg (by simp), evaluateFirst]
  · match h : e.evaluate library scope with
    | .ok v => rfl
    | .error (.error _) =>
      dsimp only
      rw [evaluateFirst, hfallback]
      rfl
    | .error (.defect d) => exact absurd h (hregular d)
  · intro argument h
    cases h

/-! ## Main statement -/

/-- **What escapes from evaluation.**  In a scope whose look-ups come to no defect, a well-formed
expression has a value, fails with an error, or comes to one of three kinds of defects, each from a
construct of its own: the overflow of a number that is needed as text, an infinite power, or an
integer that is too long to be written or read.  An expression without these constructs has a value
or fails with an error; then `can` of it is true or false, and `try` gives the fallback where it
fails. -/
theorem evaluate_escapes (e : Expr) (hwellFormed : e.IsWellFormed) (scope : Scope)
    (hscope : ∀ path span d, scope.lookup path span ≠ .error (.defect d)) :
    (∀ d, e.evaluate Library.standard scope = .error (.defect d) →
        (d = .signal .overflow ∧ ∃ x ∈ e.subexpressions, x.writes = true)
          ∨ ((∃ shown, d = .notFinite shown) ∧ e.HasCall "pow")
          ∨ ((∃ given, d = .tooManyDigits given)
            ∧ ∃ name ∈ Library.digitFunctions, e.HasCall name))
      ∧ (e.IsContained →
        ((∃ v, e.evaluate Library.standard scope = .ok v)
            ∨ ∃ error, e.evaluate Library.standard scope = .error (.error error))
          ∧ (∀ span, (Expr.call span "can" [e]).evaluate Library.standard scope
              = .ok (.bool (e.evaluate Library.standard scope).isOk))
          ∧ ∀ span fallback v, fallback.evaluate Library.standard scope = .ok v →
              (Expr.call span "try" [e, fallback]).evaluate Library.standard scope
                = .ok ((e.evaluate Library.standard scope).toOption.getD v)) := by
  have hgives : scope.Gives e.Escapes fun _ => True := fun path span =>
    ⟨fun _ _ => trivial, fun d hd => absurd hd (hscope path span d)⟩
  have hyields := e.evaluate_yields hereditary_true hwellFormed.admitted hgives
  refine ⟨hyields.defect, fun hcontained => ?_⟩
  have hregular : ∀ d, e.evaluate Library.standard scope ≠ .error (.defect d) := fun d hd =>
    hcontained.not_escapes d (hyields.defect d hd)
  refine ⟨?_, evaluate_can hregular, fun span fallback v => evaluate_try hregular span⟩
  match h : e.evaluate Library.standard scope with
  | .ok v => exact .inl ⟨v, rfl⟩
  | .error (.error error) => exact .inr ⟨error, rfl⟩
  | .error (.defect d) => exact absurd h (hregular d)

/-- `can([1, x][1])` in a scope without `x`. -/
theorem evaluate_escapes_missing :
    let x := SymbolPath.bound "x"
    let e : Expr := .index none (.list none [.literal none (.ofNat 1), .ref none x])
      (.literal none (.ofNat 1))
    e.IsWellFormed ∧ e.IsContained
      ∧ (Expr.call none "can" [e]).evaluate Library.standard [] = .ok (.bool false) := by
  intro x e
  have hwellFormed : e.IsWellFormed := by
    simp [e, Expr.IsWellFormed, Expr.subexpressions, subexpressionsOfAll, Expr.isProper]
  have hcontained : e.IsContained := by
    refine ⟨?_, ?_⟩
    · have htext : (Decimal.ofNat 1).toText.isOk = true := by decide +kernel
      simp [e, Expr.subexpressions, subexpressionsOfAll, Expr.writes, Expr.isFixed, Value.ofNat,
        htext]
    · simp [e, Expr.HasCall, Expr.subexpressions, subexpressionsOfAll]
  have hscope : ∀ path span d, Scope.lookup [] path span ≠ .error (.defect d) :=
    fun path span d h => by cases h
  refine ⟨hwellFormed, hcontained, ?_⟩
  rw [((evaluate_escapes e hwellFormed [] hscope).2 hcontained).2.1 none]
  rfl

/-- An infinite power escapes from `can`, which should be false: `can(pow(0, -1))`. -/
theorem can_passes_infinite_power :
    (Expr.call none "can" [.call none "pow"
        [.literal none (.ofNat 0), .literal none (.ofInt (-1))]]).evaluate Library.standard []
      = .error (.defect (.notFinite "Decimal('Infinity')")) := by
  rfl

end Groundplan
