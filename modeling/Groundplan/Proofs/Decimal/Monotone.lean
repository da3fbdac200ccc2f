import Groundplan.Proofs.Decimal.Canonical

/-!
# Rounding Keeps the Order

The results of a context have the values of the exact results after rounding, and rounding to the
nearest number of a context is monotone: below each power of ten the multiples of one quantum are
rounded half to even, and no number is rounded over a power of ten, which all contexts keep.

## Main Statements

- `Decimal.rounded_mono`, `Decimal.nearest_mono`: rounding is monotone
- `Decimal.toRat_of_add`, `Decimal.toRat_of_multiply`: the values of sums and products
-/

namespace Groundplan

namespace Decimal

variable {ctx : Context} {a b d r : Decimal} {x y : ℚ}

/-! ## Magnitudes -/

theorem roundHalfEven_mono (h : x ≤ y) : roundHalfEven x ≤ roundHalfEven y := by
  have hfloor : ⌊x⌋₊ ≤ ⌊y⌋₊ := Nat.floor_mono h
  rcases hfloor.lt_or_eq with hlt | heq
  · have hx : roundHalfEven x ≤ ⌊x⌋₊ + 1 := by
      unfold roundHalfEven
      split <;> omega
    have hy : ⌊y⌋₊ ≤ roundHalfEven y := by
      unfold roundHalfEven
      split <;> omega
    omega
  · -- With the same integer part the greater fraction is rounded up if the smaller one is.
    unfold roundHalfEven
    rw [heq]
    split_ifs with hup hup'
    · exact le_rfl
    · refine absurd ?_ hup'
      rcases hup with hmore | ⟨htie, hodd⟩
      · exact .inl (by linarith)
      · rcases (show (1 : ℚ) ≤ 2 * (y - ⌊y⌋₊) by linarith).lt_or_eq with hmore | htie'
        · exact .inl hmore
        · exact .inr ⟨htie'.symm, hodd⟩
    · exact Nat.le_succ _
    · exact le_rfl

theorem rounded_nonneg (ctx : Context) (x : ℚ) : 0 ≤ ctx.rounded x :=
  mul_nonneg (Nat.cast_nonneg _) (ten_zpow_pos _).le

/-- A power of ten that counts a quantum or more is a whole number of quanta. -/
theorem zpow_div_quantum {k q : ℤ} (h : q ≤ k) :
    (10 : ℚ) ^ k / 10 ^ q = (10 ^ (k - q).toNat : ℕ) := by
  rw [← zpow_sub₀ (by norm_num)]
  push_cast
  rw [← zpow_natCast, Int.toNat_of_nonneg (by omega)]

/-- Rounding does not lead over a power of ten from above. -/
theorem zpow_le_rounded {k : ℤ} (hk : ctx.quantum x ≤ k) (h : 10 ^ k ≤ x) :
    10 ^ k ≤ ctx.rounded x := by
  have hquanta : ((10 ^ (k - ctx.quantum x).toNat : ℕ) : ℚ) ≤ x / 10 ^ ctx.quantum x := by
    rw [← zpow_div_quantum hk]
    exact div_le_div_of_nonneg_right h (ten_zpow_pos _).le
  rw [Context.rounded, ← div_le_iff₀ (ten_zpow_pos _), zpow_div_quantum hk]
  exact_mod_cast le_roundHalfEven hquanta

/-- Rounding does not lead over a power of ten from below. -/
theorem rounded_le_zpow {k : ℤ} (hk : ctx.quantum x ≤ k) (h : x ≤ 10 ^ k) :
    ctx.rounded x ≤ 10 ^ k := by
  have hquanta : x / 10 ^ ctx.quantum x ≤ ((10 ^ (k - ctx.quantum x).toNat : ℕ) : ℚ) := by
    rw [← zpow_div_quantum hk]
    exact div_le_div_of_nonneg_right h (ten_zpow_pos _).le
  have hrounded := roundHalfEven_mono hquanta
  rw [roundHalfEven_natCast] at hrounded
  rw [Context.rounded, ← le_div_iff₀ (ten_zpow_pos _), zpow_div_quantum hk]
  exact_mod_cast hrounded

/-- Rounding magnitudes to a context keeps their order. -/
theorem rounded_mono (hctx : ctx.IsSane) (hx : 0 ≤ x) (h : x ≤ y) :
    ctx.rounded x ≤ ctx.rounded y := by
  rcases hx.eq_or_lt with rfl | hpos
  · rw [rounded_zero]
    exact rounded_nonneg ctx y
  have hlog : Int.log 10 x ≤ Int.log 10 y := Int.log_mono_right hpos h
  rcases (show ctx.quantum x ≤ ctx.quantum y by unfold Context.quantum; omega).eq_or_lt with
    hsame | hless
  · -- Both magnitudes are rounded to multiples of one quantum.
    rw [Context.rounded, Context.rounded, hsame]
    refine mul_le_mul_of_nonneg_right ?_ (ten_zpow_pos _).le
    exact_mod_cast roundHalfEven_mono (div_le_div_of_nonneg_right h (ten_zpow_pos _).le)
  · -- The first digit of the greater one counts a power of ten that lies between both.
    have hprecision := hctx.precision
    have hquantum : ctx.quantum y ≤ Int.log 10 y ∧ Int.log 10 x < Int.log 10 y := by
      unfold Context.quantum at hless ⊢
      omega
    have hbelow : x ≤ 10 ^ Int.log 10 y :=
      (Int.lt_zpow_iff_log_lt (by norm_num) hpos).mpr hquantum.2 |>.le
    have habove : 10 ^ Int.log 10 y ≤ y := Int.zpow_log_le_self (by norm_num) (hpos.trans_le h)
    exact (rounded_le_zpow (hless.le.trans hquantum.1) hbelow).trans
      (zpow_le_rounded hquantum.1 habove)

/-! ## Values -/

theorem nearest_of_positive (h : d.negative = false) : ctx.nearest d = ctx.rounded d.magnitude := by
  rw [Context.nearest, if_neg (by simp [h]), one_mul]

theorem nearest_of_negative (h : d.negative = true) : ctx.nearest d = -ctx.rounded d.magnitude := by
  rw [Context.nearest, if_pos h, neg_one_mul]

/-- Rounding to the nearest number of a context keeps the order. -/
theorem nearest_mono (hctx : ctx.IsSane) (h : a.toRat ≤ b.toRat) :
    ctx.nearest a ≤ ctx.nearest b := by
  have ha := a.magnitude_nonneg
  have hb := b.magnitude_nonneg
  cases hasign : a.negative <;> cases hbsign : b.negative
  · rw [nearest_of_positive hasign, nearest_of_positive hbsign]
    rw [toRat_of_positive hasign, toRat_of_positive hbsign] at h
    exact rounded_mono hctx ha h
  · -- A number with a positive sign is not below one with a negative sign unless both are zero.
    rw [nearest_of_positive hasign, nearest_of_negative hbsign]
    rw [toRat_of_positive hasign, toRat_of_negative hbsign] at h
    have hazero : a.magnitude = 0 := by linarith
    have hbzero : b.magnitude = 0 := by linarith
    rw [hazero, hbzero, rounded_zero, neg_zero]
  · rw [nearest_of_negative hasign, nearest_of_positive hbsign]
    exact (neg_nonpos.mpr (rounded_nonneg ctx _)).trans (rounded_nonneg ctx _)
  · rw [nearest_of_negative hasign, nearest_of_negative hbsign]
    rw [toRat_of_negative hasign, toRat_of_negative hbsign] at h
    exact neg_le_neg (rounded_mono hctx hb (neg_le_neg_iff.mp h))

theorem nearest_of_toRat_eq_zero (ctx : Context) (h : d.toRat = 0) : ctx.nearest d = 0 := by
  rw [Context.nearest, magnitude_eq_zero_iff.mpr (toRat_eq_zero_iff.mp h), rounded_zero, mul_zero]

theorem nearest_nonneg (hctx : ctx.IsSane) (h : 0 ≤ d.toRat) : 0 ≤ ctx.nearest d := by
  have hzero : toRat ⟨false, 0, 0⟩ = 0 := toRat_eq_zero_iff.mpr rfl
  rw [← nearest_of_toRat_eq_zero ctx hzero]
  exact nearest_mono hctx (hzero.trans_le h)

theorem nearest_nonpos (hctx : ctx.IsSane) (h : d.toRat ≤ 0) : ctx.nearest d ≤ 0 := by
  have hzero : toRat ⟨false, 0, 0⟩ = 0 := toRat_eq_zero_iff.mpr rfl
  rw [← nearest_of_toRat_eq_zero ctx hzero]
  exact nearest_mono hctx (h.trans_eq hzero.symm)

/-! ## Results of the arithmetic -/

/-- What is finished has the value of the exact result after rounding. -/
theorem toRat_of_finish (hctx : ctx.IsSane) (h : ctx.finish d = .ok r) :
    r.toRat = ctx.nearest d := by
  by_cases hd : d.coefficient = 0
  · obtain ⟨r', hr', hzero⟩ := finish_of_zero ctx hd
    obtain rfl := Except.ok.inj (h.symm.trans hr')
    rw [nearest_of_toRat_eq_zero ctx (toRat_eq_zero_iff.mpr hd), toRat_eq_zero_iff.mpr hzero]
  · rcases finish_cases hctx hd with ⟨-, herror⟩ | ⟨-, r', hr', hsign, hmagnitude⟩
    · rw [h] at herror
      cases herror
    · obtain rfl := Except.ok.inj (h.symm.trans hr')
      exact toRat_eq_nearest hsign hmagnitude

theorem toRat_of_add (hctx : ctx.IsSane) (h : ctx.add a b = .ok r) :
    r.toRat = ctx.nearest (sum a b) := by
  have hconcur := add_concur hctx a b
  rw [h] at hconcur
  generalize hfinish : ctx.finish (sum a b) = result at hconcur
  cases hconcur with
  | ok hvalue => exact hvalue.trans (toRat_of_finish hctx hfinish)

theorem toRat_of_subtract (hctx : ctx.IsSane) (h : ctx.subtract a b = .ok r) :
    r.toRat = ctx.nearest (sum a b.negate) :=
  toRat_of_add hctx h

theorem toRat_of_multiply (hctx : ctx.IsSane) (h : ctx.multiply a b = .ok r) :
    ∃ product : Decimal, product.toRat = a.toRat * b.toRat ∧ r.toRat = ctx.nearest product :=
  ⟨_, toRat_product a b, toRat_of_finish hctx h⟩

end Decimal

end Groundplan
