import Groundplan.Proofs.Decimal.Arithmetic
import Groundplan.Proofs.Decimal.Positional

/-!
# Canonical Digits

A number is shown as it is after rounding to the context of the language, without an exponent and
without zeros at the end of a fractional part.  A context can represent the numbers that rounding
does not change and that are not too great.

## Main Definitions

- `Decimal.Context.nearest`: the value of a number after rounding
- `Decimal.Context.Represents`: the numbers that a context can represent
- `Decimal.Context.Reduces`: what a number is reduced to

## Main Statements

- `Decimal.represents_iff`: what is represented is not changed by rounding
- `Decimal.reduce_cases`: what reducing a number comes to
- `Decimal.toText_cases`: the text of a number is the positional one of the reduced number
-/

namespace Groundplan

namespace Decimal

variable {ctx : Context} {d r n : Decimal}

/-! ## Numbers of a context -/

namespace Context

/-- The value of a number after its magnitude has been rounded to a context. -/
def nearest (ctx : Context) (d : Decimal) : ℚ :=
  (if d.negative then -1 else 1) * ctx.rounded d.magnitude

/-- A context can represent a number if as many digits as it keeps, with an exponent in its range,
have the value of the number. -/
def Represents (ctx : Context) (d : Decimal) : Prop :=
  ∃ r : Decimal, r.toRat = d.toRat ∧ r.width ≤ ctx.precision ∧ ctx.tiniest ≤ r.exponent ∧
    r.adjusted ≤ ctx.maxExponent

end Context

theorem rounded_zero (ctx : Context) : ctx.rounded 0 = 0 := by
  simp [Context.rounded, roundHalfEven]

theorem nearest_eq_toRat_iff : ctx.nearest d = d.toRat ↔ ctx.rounded d.magnitude = d.magnitude := by
  rw [Context.nearest, toRat_eq_sign_mul]
  cases d.negative <;> simp

/-- Digits that fit into the context count no less than the power of ten to which is rounded. -/
theorem quantum_le_exponent (hd : d.coefficient ≠ 0) (hwidth : d.width ≤ ctx.precision)
    (hlow : ctx.tiniest ≤ d.exponent) : ctx.quantum d.magnitude ≤ d.exponent := by
  rw [Context.quantum, ← adjusted_eq_log hd]
  unfold adjusted
  omega

/-- What a context can represent is not changed by rounding and not too great. -/
theorem represents_iff (hctx : ctx.IsSane) :
    ctx.Represents d ↔
      ctx.rounded d.magnitude = d.magnitude ∧ d.magnitude < 10 ^ (ctx.maxExponent + 1) := by
  by_cases hd : d.coefficient = 0
  · -- Zero has an exponent in every range.
    have hmagnitude := magnitude_eq_zero_iff.mpr hd
    have hrepresents : ctx.Represents d := by
      refine ⟨⟨false, 0, ctx.tiniest⟩, ?_, ?_, le_rfl, ?_⟩
      · rw [toRat_eq_zero_iff.mpr rfl, toRat_eq_zero_iff.mpr hd]
      · rw [width_of_zero rfl]
        exact hctx.precision
      · have := hctx.range
        rw [adjusted, width_of_zero rfl]
        dsimp only
        omega
    rw [hmagnitude, rounded_zero]
    exact ⟨fun _ => ⟨rfl, ten_zpow_pos _⟩, fun _ => hrepresents⟩
  constructor
  · rintro ⟨r, hvalue, hwidth, hlow, hhigh⟩
    have hr := (coefficient_eq_zero_congr hvalue).not.mpr hd
    rw [← magnitude_congr hvalue]
    refine ⟨rounded_eq_magnitude (quantum_le_exponent hr hwidth hlow), ?_⟩
    exact (adjusted_le_iff hr).mp hhigh
  · rintro ⟨hrounded, hfits⟩
    -- The multiple of the quantum that rounding finds has the digits.
    generalize hr : (⟨d.negative, roundHalfEven (d.magnitude / 10 ^ ctx.quantum d.magnitude),
      ctx.quantum d.magnitude⟩ : Decimal) = r
    have hmagnitude : r.magnitude = d.magnitude := by
      rw [← hr]
      exact hrounded
    have hvalue : r.toRat = d.toRat :=
      toRat_eq_iff.mpr ⟨hmagnitude, fun _ => by rw [← hr]⟩
    have hrzero := (coefficient_eq_zero_congr hvalue).not.mpr hd
    have hexponent : r.exponent = ctx.quantum d.magnitude := by rw [← hr]
    refine ⟨r, hvalue, ?_, ?_, ?_⟩
    · rw [Context.quantum, ← adjusted_eq_log hd, ← adjusted_congr hvalue hrzero] at hexponent
      unfold adjusted at hexponent
      omega
    · rw [hexponent]
      exact le_max_left _ _
    · rwa [adjusted_le_iff hrzero, hmagnitude]

/-! ## Canonical digits -/

/-- What a number is reduced to has its value after rounding and an exponent in the range of the
context, and zeros at the end of its digits only where it is whole. -/
structure Context.Reduces (ctx : Context) (d r : Decimal) : Prop where
  toRat_eq : r.toRat = ctx.nearest d
  stripped : r.coefficient % 10 = 0 → 0 ≤ r.exponent
  tiniest_le : ctx.tiniest ≤ r.exponent
  adjusted_le : r.adjusted ≤ ctx.maxExponent

theorem toRat_eq_nearest (hsign : r.negative = d.negative)
    (hmagnitude : r.magnitude = ctx.rounded d.magnitude) : r.toRat = ctx.nearest d := by
  rw [toRat_eq_sign_mul, Context.nearest, hsign, hmagnitude]

theorem exponent_le_stripZeros (fuel : ℕ) (limit : ℤ) (d : Decimal) :
    d.exponent ≤ (stripZeros fuel limit d).exponent := by
  induction fuel generalizing d with
  | zero => exact le_rfl
  | succ fuel ih =>
    unfold stripZeros
    split
    · exact (Int.lt_succ d.exponent).le.trans (ih ⟨_, _, _⟩)
    · exact le_rfl

/-- Numbers are reduced unless they are too great after rounding. -/
theorem reduce_cases (hctx : ctx.IsSane) (hlow : ctx.tiniest ≤ 0) (hhigh : 0 ≤ ctx.maxExponent)
    (hd : d.coefficient ≠ 0) :
    (10 ^ (ctx.maxExponent + 1) ≤ ctx.rounded d.magnitude ∧ ctx.reduce d = .error .overflow)
      ∨ (ctx.rounded d.magnitude < 10 ^ (ctx.maxExponent + 1)
        ∧ ∃ r, ctx.reduce d = .ok r ∧ ctx.Reduces d r) := by
  rcases finish_cases hctx hd with ⟨hlarge, hfinish⟩ | ⟨hfits, f, hfinish, hsign, hmagnitude⟩
  · refine .inl ⟨hlarge, ?_⟩
    rw [Context.reduce, hfinish]
  refine .inr ⟨hfits, ?_⟩
  unfold Context.reduce
  rw [hfinish]
  dsimp only
  by_cases hf : f.coefficient = 0
  · -- Nothing is left of a number that is too small.
    rw [if_pos (isZero_iff.mpr hf)]
    refine ⟨⟨f.negative, 0, 0⟩, rfl, toRat_eq_nearest hsign ?_, fun _ => le_rfl, hlow, ?_⟩
    · rw [← hmagnitude, magnitude_eq_zero_iff.mpr hf, magnitude_eq_zero_iff.mpr rfl]
    · rw [adjusted, width_of_zero rfl]
      exact hhigh
  · rw [if_neg (isZero_iff.not.mpr hf)]
    have hvalue := toRat_stripZeros f.width ctx.maxExponent f
    have hstripped := stripZeros_isStripped hf f.coefficient_lt
      (exponent_le_of_finish hctx hd hfinish hf)
    have hzero := (coefficient_eq_zero_congr hvalue).not.mpr hf
    refine ⟨_, rfl, hvalue.trans (toRat_eq_nearest hsign hmagnitude), fun hten => ?_, ?_, ?_⟩
    · rw [hstripped.2 hten]
      exact hhigh
    · exact (tiniest_le_of_finish hd hfinish).trans (exponent_le_stripZeros _ _ _)
    · rw [adjusted_congr hvalue hzero]
      exact adjusted_le_of_finish hctx hd hfinish hf

/-! ## Texts of numbers -/

/-- A reduced number is far from the limits of what can be written. -/
theorem Context.Reduces.isRepresentable_spelledOut (h : Context.standard.Reduces d r) :
    r.spelledOut.isRepresentable = true := by
  have hlow : -1000126 ≤ r.exponent := h.tiniest_le
  have hhigh : r.adjusted ≤ 999999 := h.adjusted_le
  have hadjusted : r.spelledOut.adjusted ≤ 999999 := by
    by_cases hr : r.coefficient = 0
    · have hzero := (coefficient_eq_zero_congr (toRat_spelledOut r)).mpr hr
      rw [adjusted, width_of_zero hzero, spelledOut]
      dsimp only
      omega
    · rwa [adjusted_congr (toRat_spelledOut r)
        ((coefficient_eq_zero_congr (toRat_spelledOut r)).not.mpr hr)]
  have hexponent : r.spelledOut.exponent = min 0 r.exponent := rfl
  unfold isRepresentable greatestWritten leastWritten
  rw [Bool.and_eq_true, decide_eq_true_iff, decide_eq_true_iff, hexponent]
  omega

/-- A number is written unless it is too great after rounding, and its text is that of the reduced
number, from which nothing had to be trimmed. -/
theorem toText_cases (n : Decimal) :
    (10 ^ (Context.standard.maxExponent + 1) ≤ Context.standard.rounded n.magnitude
        ∧ n.toText = .error .overflow)
      ∨ (Context.standard.rounded n.magnitude < 10 ^ (Context.standard.maxExponent + 1)
        ∧ ∃ r, n.toText = .ok r.toFixed ∧ Context.standard.Reduces n r) := by
  unfold toText
  by_cases hn : n.coefficient = 0
  · -- Zero is written without being reduced.
    have hmagnitude := magnitude_eq_zero_iff.mpr hn
    rw [if_pos (isZero_iff.mpr hn), hmagnitude, rounded_zero]
    refine .inr ⟨ten_zpow_pos _, ⟨false, 0, 0⟩, rfl, ?_, fun _ => le_rfl, by decide, by decide⟩
    rw [Context.nearest, hmagnitude, rounded_zero, mul_zero, toRat_eq_zero_iff]
  · rw [if_neg (isZero_iff.not.mpr hn)]
    rcases reduce_cases Context.standard_isSane (by decide) (by decide) hn with
      ⟨hlarge, hreduce⟩ | ⟨hfits, r, hreduce, hr⟩
    · rw [hreduce]
      exact .inl ⟨hlarge, rfl⟩
    · rw [hreduce]
      refine .inr ⟨hfits, r, ?_, hr⟩
      rw [Except.map, trimFraction_of_endsInDigit (endsInDigit_toFixed hr.stripped)]

end Decimal

end Groundplan
