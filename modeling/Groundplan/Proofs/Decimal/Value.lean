import Groundplan.Decimal.Basic
import Mathlib.Algebra.Order.Floor.Semifield
import Mathlib.Data.Int.Log
import Mathlib.Data.Rat.Floor
import Mathlib.Order.Compare
import Mathlib.Tactic

/-!
# Values of Decimal Numbers

A decimal stands for the rational number `± coefficient · 10 ^ exponent`.  The comparison of
decimals is that of their values, and so are the predicates and the conversions that do not show
digits.

## Main Definitions

- `Decimal.magnitude`, `Decimal.toRat`: the value without and with its sign

## Main Statements

- `Decimal.adjusted_eq_log`: the adjusted exponent is the logarithm of the magnitude
- `Decimal.compare_eq_cmp`: comparison is that of the values
- `Decimal.isWhole_iff`, `Decimal.toInt_congr`: whole numbers and the integer part
-/

namespace Groundplan

namespace Decimal

variable {a b d : Decimal}

/-! ## The value -/

/-- The value without its sign. -/
def magnitude (d : Decimal) : ℚ :=
  d.coefficient * 10 ^ d.exponent

/-- The value of a decimal. -/
def toRat (d : Decimal) : ℚ :=
  if d.negative then -d.magnitude else d.magnitude

theorem toRat_of_negative (h : d.negative = true) : d.toRat = -d.magnitude :=
  if_pos h

theorem toRat_of_positive (h : d.negative = false) : d.toRat = d.magnitude :=
  if_neg (by simp [h])

theorem ten_zpow_pos (k : ℤ) : (0 : ℚ) < 10 ^ k :=
  zpow_pos (by norm_num) k

theorem magnitude_nonneg (d : Decimal) : 0 ≤ d.magnitude :=
  mul_nonneg (Nat.cast_nonneg _) (ten_zpow_pos _).le

@[simp] theorem abs_toRat (d : Decimal) : |d.toRat| = d.magnitude := by
  unfold toRat
  split
  · rw [abs_neg, abs_of_nonneg d.magnitude_nonneg]
  · exact abs_of_nonneg d.magnitude_nonneg

theorem isZero_iff : d.isZero = true ↔ d.coefficient = 0 := by
  simp [isZero]

theorem magnitude_eq_zero_iff : d.magnitude = 0 ↔ d.coefficient = 0 := by
  simp [magnitude, (ten_zpow_pos _).ne']

theorem toRat_eq_zero_iff : d.toRat = 0 ↔ d.coefficient = 0 := by
  rw [← abs_eq_zero, abs_toRat, magnitude_eq_zero_iff]

theorem magnitude_pos (h : d.coefficient ≠ 0) : 0 < d.magnitude :=
  lt_of_le_of_ne d.magnitude_nonneg (Ne.symm (magnitude_eq_zero_iff.not.mpr h))

/-- A value other than zero has the sign of its decimal. -/
theorem toRat_neg_iff : d.toRat < 0 ↔ d.negative = true ∧ d.coefficient ≠ 0 := by
  unfold toRat
  split
  · next h =>
    rw [neg_lt_zero]
    exact ⟨fun hpos => ⟨h, fun hzero => hpos.ne' (magnitude_eq_zero_iff.mpr hzero)⟩,
      fun hd => magnitude_pos hd.2⟩
  · next h => simp [h, d.magnitude_nonneg]

theorem sign_neg_iff : d.sign < 0 ↔ d.toRat < 0 := by
  have hzero : d.coefficient ≠ 0 ↔ d.isZero = false := by
    rw [Ne, ← isZero_iff, Bool.not_eq_true]
  rw [toRat_neg_iff, hzero, sign]
  cases d.isZero <;> cases d.negative <;> simp

@[simp] theorem toRat_negate (d : Decimal) : d.negate.toRat = -d.toRat := by
  cases h : d.negative <;> simp [negate, toRat, magnitude, h]

@[simp] theorem toRat_ofNat (n : Nat) : (ofNat n).toRat = n := by
  simp [ofNat, toRat, magnitude]

@[simp] theorem toRat_ofInt (i : Int) : (ofInt i).toRat = i := by
  unfold ofInt toRat magnitude
  rcases lt_or_ge i 0 with h | h
  · have hcast : ((i.natAbs : ℤ) : ℚ) = -i := by
      rw [Int.ofNat_natAbs_of_nonpos h.le]
      push_cast
      ring
    simpa [h] using congrArg Neg.neg hcast
  · have hcast : ((i.natAbs : ℤ) : ℚ) = i := by
      rw [Int.natAbs_of_nonneg h]
    simpa [not_lt.mpr h] using hcast

/-- `scaleUp` multiplies by a power of ten. -/
theorem scaleUp_eq (n k : Nat) : scaleUp n k = n * 10 ^ k := by
  unfold scaleUp
  split
  · next h => simp [h]
  · rfl

/-- Digits brought down to a smaller exponent keep the magnitude. -/
theorem scaleUp_mul (n : Nat) {low e : ℤ} (h : low ≤ e) :
    (scaleUp n (e - low).toNat : ℚ) * 10 ^ low = n * 10 ^ e := by
  have hpow : ((10 : ℚ) ^ (e - low).toNat) = 10 ^ (e - low) := by
    rw [← zpow_natCast, Int.toNat_of_nonneg (by omega)]
  rw [scaleUp_eq]
  push_cast
  rw [hpow, mul_assoc, ← zpow_add₀ (by norm_num : (10 : ℚ) ≠ 0)]
  congr 2
  omega

/-! ## Equal values -/

/-- Two decimals have the same value if their magnitudes are the same and, unless they are zero,
their signs. -/
theorem toRat_eq_iff :
    a.toRat = b.toRat
      ↔ a.magnitude = b.magnitude ∧ (a.coefficient ≠ 0 → a.negative = b.negative) := by
  constructor
  · intro h
    have hmagnitude : a.magnitude = b.magnitude := by rw [← abs_toRat, h, abs_toRat]
    refine ⟨hmagnitude, fun ha => ?_⟩
    have hb : b.coefficient ≠ 0 := by
      rwa [Ne, ← magnitude_eq_zero_iff, ← hmagnitude, magnitude_eq_zero_iff]
    have hsign := toRat_neg_iff (d := a)
    rw [h, toRat_neg_iff] at hsign
    cases hasign : a.negative <;> cases hbsign : b.negative <;> simp_all
  · rintro ⟨hmagnitude, hsign⟩
    by_cases ha : a.coefficient = 0
    · have hb : b.coefficient = 0 := by
        rw [← magnitude_eq_zero_iff, ← hmagnitude, magnitude_eq_zero_iff]
        exact ha
      rw [toRat_eq_zero_iff.mpr ha, toRat_eq_zero_iff.mpr hb]
    · unfold toRat
      rw [hmagnitude, hsign ha]

theorem magnitude_congr (h : a.toRat = b.toRat) : a.magnitude = b.magnitude :=
  (toRat_eq_iff.mp h).1

theorem coefficient_eq_zero_congr (h : a.toRat = b.toRat) :
    a.coefficient = 0 ↔ b.coefficient = 0 := by
  rw [← toRat_eq_zero_iff, h, toRat_eq_zero_iff]

theorem isZero_congr (h : a.toRat = b.toRat) : a.isZero = b.isZero := by
  rw [Bool.eq_iff_iff, isZero_iff, isZero_iff, coefficient_eq_zero_congr h]

theorem negative_congr (h : a.toRat = b.toRat) (ha : a.coefficient ≠ 0) :
    a.negative = b.negative :=
  (toRat_eq_iff.mp h).2 ha

theorem sign_congr (h : a.toRat = b.toRat) : a.sign = b.sign := by
  unfold sign
  rw [isZero_congr h]
  split
  · rfl
  · next hzero =>
    rw [negative_congr h (by rwa [isZero_iff, ← coefficient_eq_zero_congr h] at hzero)]

/-! ## The number of digits -/

theorem width_pos (d : Decimal) : 0 < d.width :=
  Nat.length_toDigits_pos

theorem width_le_iff {k : Nat} (hk : 0 < k) : d.width ≤ k ↔ d.coefficient < 10 ^ k :=
  Nat.length_toDigits_le_iff (by norm_num) hk

theorem coefficient_lt (d : Decimal) : d.coefficient < 10 ^ d.width :=
  (width_le_iff d.width_pos).mp le_rfl

theorem le_coefficient (h : d.coefficient ≠ 0) : 10 ^ (d.width - 1) ≤ d.coefficient := by
  by_contra hlt
  rcases Nat.eq_zero_or_pos (d.width - 1) with hone | hmore
  · rw [hone] at hlt
    omega
  · have := (width_le_iff hmore).mpr (not_le.mp hlt)
    omega

theorem width_of_zero (h : d.coefficient = 0) : d.width = 1 := by
  have := (width_le_iff (d := d) one_pos).mpr (by omega)
  have := d.width_pos
  omega

theorem magnitude_lt (d : Decimal) : d.magnitude < 10 ^ (d.adjusted + 1) := by
  have hcoefficient : (d.coefficient : ℚ) < 10 ^ d.width := by exact_mod_cast d.coefficient_lt
  have hsplit : (10 : ℚ) ^ (d.adjusted + 1) = 10 ^ d.width * 10 ^ d.exponent := by
    rw [← zpow_natCast, ← zpow_add₀ (by norm_num)]
    congr 1
    unfold adjusted
    omega
  rw [hsplit]
  exact mul_lt_mul_of_pos_right hcoefficient (ten_zpow_pos _)

theorem le_magnitude (h : d.coefficient ≠ 0) : 10 ^ d.adjusted ≤ d.magnitude := by
  have hcoefficient : (10 : ℚ) ^ (d.width - 1) ≤ d.coefficient := by
    exact_mod_cast le_coefficient h
  have hsplit : (10 : ℚ) ^ d.adjusted = 10 ^ (d.width - 1) * 10 ^ d.exponent := by
    rw [← zpow_natCast, ← zpow_add₀ (by norm_num)]
    congr 1
    have := d.width_pos
    unfold adjusted
    omega
  rw [hsplit]
  exact mul_le_mul_of_nonneg_right hcoefficient (ten_zpow_pos _).le

/-- The power of ten that the first digit counts is the greatest one below the magnitude. -/
theorem adjusted_eq_log (h : d.coefficient ≠ 0) : d.adjusted = Int.log 10 d.magnitude := by
  have hpos := magnitude_pos h
  have hlow : d.adjusted ≤ Int.log 10 d.magnitude :=
    (Int.zpow_le_iff_le_log (by norm_num) hpos).mp (by exact_mod_cast le_magnitude h)
  have hhigh : Int.log 10 d.magnitude < d.adjusted + 1 :=
    (Int.lt_zpow_iff_log_lt (by norm_num) hpos).mp (by exact_mod_cast d.magnitude_lt)
  omega

/-! ## Comparison -/

/-- Coefficients that count the same power of ten are compared like the magnitudes. -/
theorem cmp_scaleUp {low : ℤ} (ha : low ≤ a.exponent) (hb : low ≤ b.exponent) :
    cmp (scaleUp a.coefficient (a.exponent - low).toNat)
        (scaleUp b.coefficient (b.exponent - low).toNat)
      = cmp a.magnitude b.magnitude := by
  have hcast := (Nat.strictMono_cast (α := ℚ)).cmp_map_eq
    (scaleUp a.coefficient (a.exponent - low).toNat)
    (scaleUp b.coefficient (b.exponent - low).toNat)
  rw [← hcast, ← cmp_mul_pos_right (ten_zpow_pos low), scaleUp_mul _ ha, scaleUp_mul _ hb]
  rfl

/-- A number with a smaller adjusted exponent has a smaller magnitude. -/
theorem magnitude_lt_of_adjusted_lt (hb : b.coefficient ≠ 0) (h : a.adjusted < b.adjusted) :
    a.magnitude < b.magnitude :=
  calc a.magnitude < 10 ^ (a.adjusted + 1) := a.magnitude_lt
    _ ≤ 10 ^ b.adjusted := zpow_le_zpow_right₀ (by norm_num) h
    _ ≤ b.magnitude := le_magnitude hb

theorem compareMagnitude_eq_cmp (ha : a.coefficient ≠ 0) (hb : b.coefficient ≠ 0) :
    compareMagnitude a b = cmp a.magnitude b.magnitude := by
  unfold compareMagnitude
  rcases lt_trichotomy a.adjusted b.adjusted with h | h | h
  · rw [compare_lt_iff_lt.mpr h]
    exact ((cmp_eq_lt_iff _ _).mpr (magnitude_lt_of_adjusted_lt hb h)).symm
  · rw [compare_eq_iff_eq.mpr h]
    -- Both coefficients are brought to the smaller exponent.
    rw [← cmp_scaleUp (min_le_left a.exponent b.exponent) (min_le_right a.exponent b.exponent),
      cmp_eq_compare]
  · rw [compare_gt_iff_gt.mpr h]
    exact ((cmp_eq_gt_iff _ _).mpr (magnitude_lt_of_adjusted_lt ha h)).symm

/-- Comparison of decimals is that of their values. -/
theorem compare_eq_cmp (a b : Decimal) : compare a b = cmp a.toRat b.toRat := by
  unfold compare
  by_cases ha : a.coefficient = 0 <;> by_cases hb : b.coefficient = 0
  · rw [toRat_eq_zero_iff.mpr ha, toRat_eq_zero_iff.mpr hb, cmp_self_eq_eq]
    simp [isZero, ha, hb]
  · have hpos := magnitude_pos hb
    rw [toRat_eq_zero_iff.mpr ha]
    cases hsign : b.negative with
    | true =>
      rw [toRat_of_negative hsign, (cmp_eq_gt_iff _ _).mpr (neg_lt_zero.mpr hpos)]
      simp [isZero, ha, hb]
    | false =>
      rw [toRat_of_positive hsign, (cmp_eq_lt_iff _ _).mpr hpos]
      simp [isZero, ha, hb]
  · have hpos := magnitude_pos ha
    rw [toRat_eq_zero_iff.mpr hb]
    cases hsign : a.negative with
    | true =>
      rw [toRat_of_negative hsign, (cmp_eq_lt_iff _ _).mpr (neg_lt_zero.mpr hpos)]
      simp [isZero, ha, hb]
    | false =>
      rw [toRat_of_positive hsign, (cmp_eq_gt_iff _ _).mpr hpos]
      simp [isZero, ha, hb]
  · have hapos := magnitude_pos ha
    have hbpos := magnitude_pos hb
    have hazero : a.isZero = false := by simpa [isZero] using ha
    have hbzero : b.isZero = false := by simpa [isZero] using hb
    rw [hazero, hbzero]
    cases hasign : a.negative <;> cases hbsign : b.negative
    · rw [toRat_of_positive hasign, toRat_of_positive hbsign, ← compareMagnitude_eq_cmp ha hb]
      rfl
    · rw [toRat_of_positive hasign, toRat_of_negative hbsign,
        (cmp_eq_gt_iff _ _).mpr ((neg_lt_zero.mpr hbpos).trans hapos)]
      rfl
    · rw [toRat_of_negative hasign, toRat_of_positive hbsign,
        (cmp_eq_lt_iff _ _).mpr ((neg_lt_zero.mpr hapos).trans hbpos)]
      rfl
    · have hneg : StrictAnti (Neg.neg : ℚ → ℚ) := fun _ _ h => neg_lt_neg h
      rw [toRat_of_negative hasign, toRat_of_negative hbsign, hneg.cmp_map_eq,
        ← compareMagnitude_eq_cmp hb ha]
      rfl

theorem equals_iff : a.equals b = true ↔ a.toRat = b.toRat := by
  rw [equals, compare_eq_cmp, beq_iff_eq, cmp_eq_eq_iff]

theorem less_iff : a.less b = true ↔ a.toRat < b.toRat := by
  rw [less, compare_eq_cmp, beq_iff_eq, cmp_eq_lt_iff]

theorem compare_congr {a' b' : Decimal} (ha : a.toRat = a'.toRat) (hb : b.toRat = b'.toRat) :
    a.compare b = a'.compare b' := by
  rw [compare_eq_cmp, compare_eq_cmp, ha, hb]

theorem less_congr {a' b' : Decimal} (ha : a.toRat = a'.toRat) (hb : b.toRat = b'.toRat) :
    a.less b = a'.less b' := by
  rw [less, less, compare_congr ha hb]

/-! ## Whole numbers -/

/-- A negative exponent cuts the coefficient. -/
theorem magnitude_eq_div (h : d.exponent < 0) :
    d.magnitude = d.coefficient / (10 ^ d.exponent.natAbs : ℕ) := by
  have hneg : d.exponent = -(d.exponent.natAbs : ℤ) := by omega
  unfold magnitude
  conv_lhs => rw [hneg, zpow_neg, zpow_natCast]
  push_cast
  rw [div_eq_mul_inv]

/-- Without a negative exponent the magnitude is a natural number. -/
theorem magnitude_eq_natCast (h : 0 ≤ d.exponent) :
    d.magnitude = (scaleUp d.coefficient d.exponent.toNat : ℕ) := by
  have hscaled := scaleUp_mul d.coefficient h
  simp only [sub_zero, zpow_zero, mul_one] at hscaled
  rw [hscaled]
  rfl

/-- A number with fewer digits than are cut is below one. -/
theorem coefficient_lt_pow (h : d.width < d.exponent.natAbs) :
    d.coefficient < 10 ^ d.exponent.natAbs :=
  d.coefficient_lt.trans_le (Nat.pow_le_pow_right (by norm_num) h.le)

/-- The integer part of the magnitude. -/
theorem truncated_eq (d : Decimal) : d.truncated = ⌊d.magnitude⌋₊ := by
  unfold truncated
  split
  · next h => rw [magnitude_eq_natCast h, Nat.floor_natCast]
  · next h =>
    rw [magnitude_eq_div (not_le.mp h), Nat.floor_div_eq_div]
    split
    · next hwidth => exact (Nat.div_eq_of_lt (coefficient_lt_pow hwidth)).symm
    · rfl

/-- A number is whole if its magnitude is its integer part. -/
theorem isWhole_iff : d.isWhole = true ↔ (⌊d.magnitude⌋₊ : ℚ) = d.magnitude := by
  unfold isWhole
  by_cases hzero : d.coefficient = 0
  · simp [isZero, hzero, magnitude_eq_zero_iff.mpr hzero]
  by_cases hexponent : 0 ≤ d.exponent
  · simp [hexponent, magnitude_eq_natCast hexponent]
  · have hisZero : d.isZero = false := by simpa [isZero] using hzero
    have hpow : ((10 ^ d.exponent.natAbs : ℕ) : ℚ) ≠ 0 := by positivity
    rw [magnitude_eq_div (not_le.mp hexponent), Nat.floor_div_eq_div, eq_div_iff hpow]
    -- The quotient times the divisor gives the coefficient back if nothing remains.
    have hdiv : ((d.coefficient / 10 ^ d.exponent.natAbs : ℕ) : ℚ) * (10 ^ d.exponent.natAbs : ℕ)
        = d.coefficient ↔ d.coefficient % 10 ^ d.exponent.natAbs = 0 := by
      rw [← Nat.dvd_iff_mod_eq_zero, Nat.dvd_iff_div_mul_eq]
      exact_mod_cast Iff.rfl
    rw [hdiv]
    simp only [hexponent, hisZero, decide_false, Bool.or_self, Bool.false_eq_true, if_false]
    split
    · next hwidth =>
      rw [Nat.mod_eq_of_lt (coefficient_lt_pow hwidth)]
      simpa using hzero
    · exact beq_iff_eq

theorem isWhole_congr (h : a.toRat = b.toRat) : a.isWhole = b.isWhole := by
  rw [Bool.eq_iff_iff, isWhole_iff, isWhole_iff, magnitude_congr h]

theorem truncated_congr (h : a.toRat = b.toRat) : a.truncated = b.truncated := by
  rw [truncated_eq, truncated_eq, magnitude_congr h]

theorem truncated_of_zero (h : d.coefficient = 0) : d.truncated = 0 := by
  rw [truncated_eq, magnitude_eq_zero_iff.mpr h, Nat.floor_zero]

theorem toInt_congr (h : a.toRat = b.toRat) : a.toInt = b.toInt := by
  unfold toInt
  rw [truncated_congr h]
  by_cases ha : a.coefficient = 0
  · -- The sign of zero does not show.
    simp [truncated_of_zero ((coefficient_eq_zero_congr h).mp ha)]
  · rw [negative_congr h ha]

/-- Cutting off the fractional part, or going away from zero, gives a whole magnitude. -/
theorem magnitude_toWhole (outward : Bool) (d : Decimal) :
    (toWhole outward d).magnitude
      = if outward = true ∧ d.isWhole = false then (⌊d.magnitude⌋₊ : ℚ) + 1
        else ⌊d.magnitude⌋₊ := by
  unfold toWhole
  split
  · next h =>
    have hwhole : d.isWhole = true := by simp [isWhole, h]
    rw [if_neg (by simp [hwhole]), isWhole_iff.mp hwhole]
  · rw [truncated_eq]
    split_ifs <;> simp_all [magnitude]

theorem toWhole_congr (h : a.toRat = b.toRat) (f : Bool → Bool) :
    (toWhole (f a.negative) a).toRat = (toWhole (f b.negative) b).toRat := by
  have hsign : ∀ outward (d : Decimal), (toWhole outward d).negative = d.negative := by
    intro outward d
    unfold toWhole
    split <;> rfl
  by_cases ha : a.coefficient = 0
  · have hzero : ∀ outward (d : Decimal), d.coefficient = 0 →
        (toWhole outward d).toRat = 0 := by
      intro outward d hd
      have hwhole : d.isWhole = true := by simp [isWhole, isZero, hd]
      rw [toRat_eq_zero_iff, ← magnitude_eq_zero_iff, magnitude_toWhole,
        if_neg (by simp [hwhole]), magnitude_eq_zero_iff.mpr hd, Nat.floor_zero, Nat.cast_zero]
    rw [hzero _ a ha, hzero _ b ((coefficient_eq_zero_congr h).mp ha)]
  · refine toRat_eq_iff.mpr ⟨?_, fun _ => ?_⟩
    · rw [magnitude_toWhole, magnitude_toWhole, negative_congr h ha, isWhole_congr h,
        magnitude_congr h]
    · rw [hsign, hsign, negative_congr h ha]

theorem ceil_congr (h : a.toRat = b.toRat) : a.ceil.toRat = b.ceil.toRat :=
  toWhole_congr h fun negative => !negative

theorem floor_congr (h : a.toRat = b.toRat) : a.floor.toRat = b.floor.toRat :=
  toWhole_congr h fun negative => negative

end Decimal

end Groundplan
