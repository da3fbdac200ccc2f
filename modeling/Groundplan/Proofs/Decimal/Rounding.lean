import Groundplan.Decimal.Context
import Groundplan.Proofs.Decimal.Value
import Groundplan.Proofs.Equality.Outcome

/-!
# Rounding of Decimal Numbers

A result is finished by rounding its magnitude to a multiple of a power of ten, half to even, and by
refusing what is too great then.  Which power of ten that is depends on the magnitude only, so
finishing does not tell apart decimals with the same value.

## Main Definitions

- `Decimal.roundHalfEven`: the nearest natural number
- `Decimal.Context.rounded`: a magnitude rounded to a context

## Main Statements

- `Decimal.finish_cases`: what finishing a decimal comes to
- `Decimal.finish_congr`: decimals with the same value are finished alike
-/

namespace Groundplan

namespace Decimal

variable {a b d : Decimal}

/-! ## Nearest natural numbers -/

/-- The nearest natural number, of two the even one. -/
def roundHalfEven (x : ℚ) : ℕ :=
  if 1 < 2 * (x - ⌊x⌋₊) ∨ (2 * (x - ⌊x⌋₊) = 1 ∧ ⌊x⌋₊ % 2 = 1) then ⌊x⌋₊ + 1 else ⌊x⌋₊

@[simp] theorem roundHalfEven_natCast (n : ℕ) : roundHalfEven n = n := by
  simp [roundHalfEven]

theorem le_roundHalfEven {n : ℕ} {x : ℚ} (h : (n : ℚ) ≤ x) : n ≤ roundHalfEven x := by
  have hfloor := Nat.le_floor h
  unfold roundHalfEven
  split <;> omega

/-- Strictly between two consecutive halves, rounding does not depend on the place. -/
theorem roundHalfEven_of_between {j : ℕ} {x : ℚ} (hlow : (j : ℚ) < 2 * x)
    (hhigh : 2 * x < j + 1) : roundHalfEven x = (j + 1) / 2 := by
  obtain ⟨i, rfl | rfl⟩ := j.even_or_odd'
  · push_cast at hlow hhigh
    have hfloor : ⌊x⌋₊ = i := (Nat.floor_eq_iff (by linarith [Nat.cast_nonneg (α := ℚ) i])).mpr
      ⟨by linarith, by linarith⟩
    rw [roundHalfEven, hfloor, if_neg]
    · omega
    · rintro (h | ⟨h, _⟩) <;> linarith
  · push_cast at hlow hhigh
    have hfloor : ⌊x⌋₊ = i := (Nat.floor_eq_iff (by linarith [Nat.cast_nonneg (α := ℚ) i])).mpr
      ⟨by linarith, by linarith⟩
    rw [roundHalfEven, hfloor, if_pos (.inl (by linarith))]
    omega

theorem roundQuotient_eq (n k : ℕ) : roundQuotient n k = roundHalfEven (n / 10 ^ k) := by
  have hunit : (0 : ℚ) < (10 ^ k : ℕ) := by positivity
  have hfloor : ⌊(n : ℚ) / 10 ^ k⌋₊ = n / 10 ^ k := by
    have := Nat.floor_div_eq_div (K := ℚ) n (10 ^ k)
    push_cast at this
    exact this
  -- What lies behind the integer part is the remainder.
  have hrest : (n : ℚ) / 10 ^ k - (n / 10 ^ k : ℕ) = (n % 10 ^ k : ℕ) / (10 ^ k : ℕ) := by
    have hsplit : ((10 ^ k : ℕ) : ℚ) * (n / 10 ^ k : ℕ) + (n % 10 ^ k : ℕ) = n := by
      exact_mod_cast Nat.div_add_mod n (10 ^ k)
    rw [sub_eq_iff_eq_add, div_add' _ _ _ hunit.ne', ← hsplit]
    push_cast
    ring
  have hless : (1 : ℚ) < 2 * ((n % 10 ^ k : ℕ) / (10 ^ k : ℕ))
      ↔ 10 ^ k < 2 * (n % 10 ^ k) := by
    rw [← mul_div_assoc, one_lt_div hunit]
    exact_mod_cast Iff.rfl
  have htie : (2 : ℚ) * ((n % 10 ^ k : ℕ) / (10 ^ k : ℕ)) = 1
      ↔ 2 * (n % 10 ^ k) = 10 ^ k := by
    rw [← mul_div_assoc, div_eq_one_iff_eq hunit.ne']
    exact_mod_cast Iff.rfl
  unfold roundQuotient roundHalfEven
  rw [hfloor, hrest]
  simp only [hless, htie, Nat.pow_eq, Bool.or_eq_true, Bool.and_eq_true, decide_eq_true_eq,
    beq_iff_eq]

/-! ## Rounding to a power of ten -/

theorem magnitude_div (d : Decimal) (q : ℤ) :
    d.magnitude / 10 ^ q = d.coefficient * 10 ^ (d.exponent - q) := by
  rw [magnitude, mul_div_assoc, ← zpow_sub₀ (by norm_num)]

/-- A magnitude is a whole multiple of the power of ten that its last digit counts, and of all
smaller ones. -/
theorem magnitude_div_eq_natCast {q : ℤ} (h : q ≤ d.exponent) :
    d.magnitude / 10 ^ q = (scaleUp d.coefficient (d.exponent - q).toNat : ℕ) := by
  rw [div_eq_iff (ten_zpow_pos q).ne', scaleUp_mul _ h]
  rfl

/-- The coefficient of a quantized number is the nearest one. -/
theorem quantize_coefficient (d : Decimal) (q : ℤ) :
    (quantize d q).coefficient = roundHalfEven (d.magnitude / 10 ^ q) := by
  unfold quantize
  split
  · next h => rw [magnitude_div_eq_natCast h, roundHalfEven_natCast]
  · next h =>
    have hquotient : d.magnitude / 10 ^ q = d.coefficient / 10 ^ (q - d.exponent).toNat := by
      rw [magnitude_div, ← zpow_natCast, Int.toNat_of_nonneg (by omega), ← neg_sub, zpow_neg]
      rfl
    dsimp only
    split
    · next hwidth =>
      -- Less than a tenth is left.
      rw [hquotient]
      have hlow : d.coefficient * 10 < 10 ^ (q - d.exponent).toNat := by
        calc d.coefficient * 10 < 10 ^ d.width * 10 :=
              Nat.mul_lt_mul_of_pos_right d.coefficient_lt (by norm_num)
          _ = 10 ^ (d.width + 1) := (pow_succ 10 d.width).symm
          _ ≤ 10 ^ (q - d.exponent).toNat := Nat.pow_le_pow_right (by norm_num) hwidth
      have hlow' : (d.coefficient : ℚ) * 10 < 10 ^ (q - d.exponent).toNat := by exact_mod_cast hlow
      have hhalf : 2 * ((d.coefficient : ℚ) / 10 ^ (q - d.exponent).toNat) < 1 := by
        rw [← mul_div_assoc, div_lt_one (by positivity)]
        linarith [Nat.cast_nonneg (α := ℚ) d.coefficient]
      rcases Nat.eq_zero_or_pos d.coefficient with hzero | hpos
      · simp [hzero, roundHalfEven]
      · have hcast : (0 : ℚ) < d.coefficient := by exact_mod_cast hpos
        have hbetween := roundHalfEven_of_between (j := 0)
          (x := d.coefficient / 10 ^ (q - d.exponent).toNat) (by push_cast; positivity)
          (by simpa using hhalf)
        exact hbetween.symm
    · rw [hquotient, roundQuotient_eq]

theorem quantize_exponent (d : Decimal) (q : ℤ) : (quantize d q).exponent = q := by
  unfold quantize
  split <;> rfl

theorem quantize_negative (d : Decimal) (q : ℤ) : (quantize d q).negative = d.negative := by
  unfold quantize
  split <;> rfl

/-! ## Rounding to a context -/

namespace Context

/-- Contexts that keep some digit and in which one number at least is neither too great nor too
small. -/
structure IsSane (ctx : Context) : Prop where
  precision : 0 < ctx.precision
  range : ctx.tiniest ≤ ctx.maxExponent

theorem standard_isSane : standard.IsSane :=
  ⟨by decide, by decide⟩

theorem coarse_isSane : coarse.IsSane :=
  ⟨by decide, by decide⟩

/-- The power of ten to which a magnitude is rounded. -/
def quantum (ctx : Context) (m : ℚ) : ℤ :=
  max ctx.tiniest (Int.log 10 m - ctx.precision + 1)

/-- The magnitude rounded to a context. -/
def rounded (ctx : Context) (m : ℚ) : ℚ :=
  roundHalfEven (m / 10 ^ ctx.quantum m) * 10 ^ ctx.quantum m

end Context

variable {ctx : Context}

/-- A number all of whose digits are kept is not changed by rounding. -/
theorem rounded_eq_magnitude (h : ctx.quantum d.magnitude ≤ d.exponent) :
    ctx.rounded d.magnitude = d.magnitude := by
  rw [Context.rounded, magnitude_div_eq_natCast h, roundHalfEven_natCast, scaleUp_mul _ h]
  rfl

/-- The first digit counts more than a power of ten if the magnitude reaches the next one. -/
theorem lt_adjusted_iff (hd : d.coefficient ≠ 0) {k : ℤ} :
    k < d.adjusted ↔ 10 ^ (k + 1) ≤ d.magnitude := by
  rw [adjusted_eq_log hd, ← Int.add_one_le_iff,
    ← Int.zpow_le_iff_le_log (by norm_num) (magnitude_pos hd)]
  norm_num

theorem adjusted_le_iff (hd : d.coefficient ≠ 0) {k : ℤ} :
    d.adjusted ≤ k ↔ d.magnitude < 10 ^ (k + 1) := by
  rw [← not_lt, lt_adjusted_iff hd, not_le]

/-- A power of ten with one zero less that counts the next power of ten. -/
theorem carry_eq {p : ℕ} (hp : 0 < p) (q : ℤ) :
    ((Nat.pow 10 (p - 1) : ℕ) : ℚ) * 10 ^ (q + 1) = (Nat.pow 10 p : ℕ) * 10 ^ q := by
  have hpow : (10 : ℚ) ^ p = 10 ^ (p - 1) * 10 := by rw [← pow_succ, Nat.sub_add_cancel hp]
  simp only [Nat.pow_eq]
  push_cast
  rw [hpow, zpow_add₀ (by norm_num), zpow_one]
  ring

/-- Finishing a number other than zero rounds its magnitude and keeps its sign, unless the rounded
magnitude is too great. -/
theorem finish_cases (hctx : ctx.IsSane) (hd : d.coefficient ≠ 0) :
    (10 ^ (ctx.maxExponent + 1) ≤ ctx.rounded d.magnitude ∧ ctx.finish d = .error .overflow)
      ∨ (ctx.rounded d.magnitude < 10 ^ (ctx.maxExponent + 1)
        ∧ ∃ r, ctx.finish d = .ok r ∧ r.negative = d.negative
          ∧ r.magnitude = ctx.rounded d.magnitude) := by
  have hzero : d.isZero = false := by simpa [isZero] using hd
  have hprecision := hctx.precision
  have hrange := hctx.range
  have hquantum : ctx.quantum d.magnitude
      = max ctx.tiniest (d.adjusted - ctx.precision + 1) := by
    rw [Context.quantum, adjusted_eq_log hd]
  unfold Context.finish
  rw [hzero, ← hquantum]
  simp only [Bool.false_eq_true, if_false]
  by_cases hlarge : ctx.maxExponent < d.adjusted
  · -- Rounding does not lead below the first digit.
    rw [if_pos hlarge]
    refine .inl ⟨?_, rfl⟩
    have hle : ctx.quantum d.magnitude ≤ d.adjusted := by omega
    have hfirst : ((10 ^ (d.adjusted - ctx.quantum d.magnitude).toNat : ℕ) : ℚ)
        ≤ d.magnitude / 10 ^ ctx.quantum d.magnitude := by
      rw [le_div_iff₀ (ten_zpow_pos _)]
      push_cast
      rw [← zpow_natCast, Int.toNat_of_nonneg (by omega), ← zpow_add₀ (by norm_num),
        sub_add_cancel]
      exact le_magnitude hd
    have hrounded := Nat.cast_le (α := ℚ) |>.mpr (le_roundHalfEven hfirst)
    calc (10 : ℚ) ^ (ctx.maxExponent + 1) ≤ 10 ^ d.adjusted :=
          zpow_le_zpow_right₀ (by norm_num) (by omega)
      _ = (10 ^ (d.adjusted - ctx.quantum d.magnitude).toNat : ℕ)
            * 10 ^ ctx.quantum d.magnitude := by
          push_cast
          rw [← zpow_natCast, Int.toNat_of_nonneg (by omega), ← zpow_add₀ (by norm_num),
            sub_add_cancel]
      _ ≤ ctx.rounded d.magnitude := mul_le_mul_of_nonneg_right hrounded (ten_zpow_pos _).le
  · rw [if_neg hlarge]
    by_cases hexact : ctx.quantum d.magnitude ≤ d.exponent
    · -- All digits fit.
      rw [if_pos hexact]
      rw [rounded_eq_magnitude hexact]
      refine .inr ⟨?_, d, rfl, rfl, rfl⟩
      exact (adjusted_le_iff hd).mp (not_lt.mp hlarge)
    · rw [if_neg hexact]
      -- A carry only moves the point of the coefficient.
      have hrounded : (quantize d (ctx.quantum d.magnitude)).magnitude
          = ctx.rounded d.magnitude := by
        rw [magnitude, quantize_coefficient, quantize_exponent]
        rfl
      have hjudged : ∀ c : Decimal, c.negative = d.negative →
          c.magnitude = ctx.rounded d.magnitude →
          (c.coefficient = 0 → c.exponent = ctx.quantum d.magnitude) →
          (10 ^ (ctx.maxExponent + 1) ≤ ctx.rounded d.magnitude
              ∧ (if ctx.maxExponent < c.adjusted then (.error .overflow : Except Signal Decimal)
                else .ok c) = .error .overflow)
            ∨ (ctx.rounded d.magnitude < 10 ^ (ctx.maxExponent + 1)
              ∧ ∃ r, (if ctx.maxExponent < c.adjusted then (.error .overflow : Except Signal Decimal)
                  else .ok c) = .ok r ∧ r.negative = d.negative
                ∧ r.magnitude = ctx.rounded d.magnitude) := by
        intro c hsign hmagnitude hexponent
        rw [← hmagnitude]
        by_cases hc : c.coefficient = 0
        · have hadjusted : c.adjusted ≤ ctx.maxExponent := by
            rw [adjusted, width_of_zero hc, hexponent hc, hquantum]
            omega
          rw [if_neg (not_lt.mpr hadjusted), magnitude_eq_zero_iff.mpr hc]
          exact .inr ⟨ten_zpow_pos _, c, rfl, hsign, magnitude_eq_zero_iff.mpr hc⟩
        · by_cases hover : ctx.maxExponent < c.adjusted
          · rw [if_pos hover]
            exact .inl ⟨(lt_adjusted_iff hc).mp hover, rfl⟩
          · rw [if_neg hover]
            exact .inr ⟨(adjusted_le_iff hc).mp (not_lt.mp hover), c, rfl, hsign, rfl⟩
      split
      · next hcarry =>
        refine hjudged _ (quantize_negative d _) ?_
          fun h => absurd h (pow_pos (by norm_num : 0 < 10) (ctx.precision - 1)).ne'
        refine (carry_eq hprecision _).trans ?_
        rw [← hrounded, ← hcarry, magnitude.eq_1 (quantize d _), quantize_exponent]
      · exact hjudged _ (quantize_negative d _) hrounded fun _ => quantize_exponent d _

/-- Finishing leaves a zero zero. -/
theorem finish_of_zero (ctx : Context) (hd : d.coefficient = 0) :
    ∃ r, ctx.finish d = .ok r ∧ r.coefficient = 0 := by
  refine ⟨{ d with exponent := max ctx.tiniest (min ctx.maxExponent d.exponent) }, ?_, hd⟩
  rw [Context.finish, if_pos (isZero_iff.mpr hd)]

/-- What is finished is not too great. -/
theorem adjusted_le_of_finish {r : Decimal} (hctx : ctx.IsSane) (hd : d.coefficient ≠ 0)
    (h : ctx.finish d = .ok r) (hr : r.coefficient ≠ 0) : r.adjusted ≤ ctx.maxExponent := by
  rcases finish_cases hctx hd with ⟨_, herror⟩ | ⟨hfits, r', hok, _, hmagnitude⟩
  · rw [h] at herror
    cases herror
  · rw [h] at hok
    cases hok
    rwa [adjusted_le_iff hr, hmagnitude]

/-- The digits that are kept do not count less than the least power of ten. -/
theorem tiniest_le_of_finish {r : Decimal} (hd : d.coefficient ≠ 0) (h : ctx.finish d = .ok r) :
    ctx.tiniest ≤ r.exponent := by
  have hzero : d.isZero = false := by simpa [isZero] using hd
  unfold Context.finish at h
  rw [hzero] at h
  simp only [Bool.false_eq_true, if_false] at h
  split at h
  · cases h
  split at h
  · next hexact =>
    cases h
    exact (le_max_left _ _).trans hexact
  -- A carry raises the exponent by one.
  split at h
  · split at h
    · cases h
    · cases h
      exact (le_max_left _ _).trans (le_add_of_nonneg_right zero_le_one)
  · split at h
    · cases h
    · cases h
      rw [quantize_exponent]
      exact le_max_left _ _

/-! ## Results with the same value -/

/-- Results of the arithmetic with the same value, or the same signal. -/
abbrev SameResult : Except Signal Decimal → Except Signal Decimal → Prop :=
  Concur Eq fun a b => a.toRat = b.toRat

namespace SameResult

variable {x y z : Except Signal Decimal}

theorem refl (x : Except Signal Decimal) : SameResult x x := by
  cases x with
  | ok a => exact .ok rfl
  | error s => exact .error rfl

theorem symm (h : SameResult x y) : SameResult y x := by
  cases h with
  | ok hab => exact .ok hab.symm
  | error hst => exact .error hst.symm

theorem trans (h : SameResult x y) (h' : SameResult y z) : SameResult x z :=
  Concur.trans h h' (fun _ _ _ => Eq.trans) fun _ _ _ => Eq.trans

end SameResult

/-- Numbers with the same sign whose magnitudes are rounded alike are finished alike, with the same
sign even where nothing is left. -/
theorem finish_concur_of_rounded (hctx : ctx.IsSane) (ha : a.coefficient ≠ 0)
    (hb : b.coefficient ≠ 0) (hsign : a.negative = b.negative)
    (hrounded : ctx.rounded a.magnitude = ctx.rounded b.magnitude) :
    Concur Eq (fun r r' => r.negative = r'.negative ∧ r.magnitude = r'.magnitude)
      (ctx.finish a) (ctx.finish b) := by
  rcases finish_cases hctx ha with ⟨hlarge, hfinish⟩ | ⟨hfits, r, hfinish, hr, hmagnitude⟩
  · rcases finish_cases hctx hb with ⟨_, hfinish'⟩ | ⟨hfits', _⟩
    · rw [hfinish, hfinish']
      exact .error rfl
    · exact absurd hfits' (by rw [← hrounded]; exact not_lt.mpr hlarge)
  · rcases finish_cases hctx hb with ⟨hlarge', _⟩ | ⟨_, r', hfinish', hr', hmagnitude'⟩
    · exact absurd hfits (by rw [hrounded]; exact not_lt.mpr hlarge')
    · rw [hfinish, hfinish']
      exact .ok ⟨by rw [hr, hr', hsign], by rw [hmagnitude, hmagnitude', hrounded]⟩

theorem finish_congr_of_rounded (hctx : ctx.IsSane) (ha : a.coefficient ≠ 0)
    (hb : b.coefficient ≠ 0) (hsign : a.negative = b.negative)
    (hrounded : ctx.rounded a.magnitude = ctx.rounded b.magnitude) :
    SameResult (ctx.finish a) (ctx.finish b) :=
  (finish_concur_of_rounded hctx ha hb hsign hrounded).mono fun _ _ h =>
    toRat_eq_iff.mpr ⟨h.2, fun _ => h.1⟩

/-- Decimals with the same value are finished alike. -/
theorem finish_congr (hctx : ctx.IsSane) (h : a.toRat = b.toRat) :
    SameResult (ctx.finish a) (ctx.finish b) := by
  by_cases ha : a.coefficient = 0
  · obtain ⟨r, hr, hzero⟩ := finish_of_zero ctx ha
    obtain ⟨r', hr', hzero'⟩ := finish_of_zero ctx
      ((coefficient_eq_zero_congr h).mp ha)
    rw [hr, hr']
    exact .ok (by rw [toRat_eq_zero_iff.mpr hzero, toRat_eq_zero_iff.mpr hzero'])
  · exact finish_congr_of_rounded hctx ha ((coefficient_eq_zero_congr h).not.mp ha)
      (negative_congr h ha) (by rw [magnitude_congr h])

end Decimal

end Groundplan
