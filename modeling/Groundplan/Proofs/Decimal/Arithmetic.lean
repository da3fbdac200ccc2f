import Groundplan.Proofs.Decimal.Rounding

/-!
# Arithmetic of Values

Every operation of the arithmetic finishes an exact result, or one that differs from it too little to
be rounded differently.  So operands with the same values give results with the same value, or the
same signal, and the text of a number in configuration depends on its value only.

## Main Statements

- `Decimal.toRat_sum`: the exact sum
- `Decimal.add_concur`: a sum with a small operand is finished like the exact one
- `Decimal.add_congr`, `multiply_congr`, `divide_congr`, `remainder_congr`: operations
- `Decimal.toText_congr`: texts
-/

namespace Groundplan

namespace Decimal

variable {ctx : Context} {a a' b b' d : Decimal}

/-! ## The exact sum -/

/-- The value of a coefficient that counts a power of ten, with a sign. -/
theorem toRat_mk (negative : Bool) (n : ℕ) (e : ℤ) :
    toRat ⟨negative, n, e⟩ = (if negative then -1 else 1) * (n * 10 ^ e) := by
  cases negative <;> simp [toRat, magnitude]

theorem toRat_sum (a b : Decimal) : (sum a b).toRat = a.toRat + b.toRat := by
  have ha : a.toRat = (if a.negative then -1 else 1)
      * ((scaleUp a.coefficient (a.exponent - min a.exponent b.exponent).toNat : ℕ)
        * 10 ^ min a.exponent b.exponent) := by
    rw [scaleUp_mul _ (min_le_left _ _)]
    exact toRat_mk a.negative a.coefficient a.exponent
  have hb : b.toRat = (if b.negative then -1 else 1)
      * ((scaleUp b.coefficient (b.exponent - min a.exponent b.exponent).toNat : ℕ)
        * 10 ^ min a.exponent b.exponent) := by
    rw [scaleUp_mul _ (min_le_right _ _)]
    exact toRat_mk b.negative b.coefficient b.exponent
  rw [ha, hb]
  unfold sum
  dsimp only
  generalize scaleUp a.coefficient _ = x
  generalize scaleUp b.coefficient _ = y
  by_cases hsign : a.negative = b.negative
  · rw [if_pos hsign, toRat_mk, hsign]
    push_cast
    ring
  · have hopposite : (if b.negative then (-1 : ℚ) else 1)
        = -(if a.negative then (-1 : ℚ) else 1) := by
      cases ha : a.negative <;> cases hb : b.negative <;> simp_all
    rw [if_neg hsign]
    rcases lt_trichotomy x y with hlt | heq | hgt
    · rw [if_neg hlt.ne, if_pos hlt, toRat_mk, hopposite, Nat.cast_sub hlt.le]
      ring
    · rw [if_pos heq, toRat_mk, hopposite, heq]
      push_cast
      ring
    · rw [if_neg hgt.ne', if_neg hgt.not_gt, toRat_mk, hopposite, Nat.cast_sub hgt.le]
      ring

theorem sum_congr (ha : a.toRat = a'.toRat) (hb : b.toRat = b'.toRat) :
    (sum a b).toRat = (sum a' b').toRat := by
  rw [toRat_sum, toRat_sum, ha, hb]

/-! ## Numbers next to a number -/

/-- Strictly between two consecutive multiples of a unit, the halves of a multiple of the unit lie
on the same side. -/
theorem exists_half_between (n u : ℕ) (hu : 0 < u) {g : ℚ} (hg : 0 < g) :
    ∃ j : ℕ, ∀ z : ℚ, n * g < z → z < (n + 1) * g → j * (u * g) < z ∧ z < (j + 1) * (u * g) := by
  refine ⟨n / u, fun z hlow hhigh => ⟨?_, ?_⟩⟩
  · have hle : ((n / u * u : ℕ) : ℚ) ≤ n := by exact_mod_cast Nat.div_mul_le_self n u
    push_cast at hle
    nlinarith
  · have hlt : ((n + 1 : ℕ) : ℚ) ≤ ((n / u + 1) * u : ℕ) := by
      exact_mod_cast Nat.lt_mul_of_div_lt (Nat.lt_succ_self _) hu
    push_cast at hlt
    nlinarith

/-- Between two consecutive multiples of a power of ten, the logarithm does not change. -/
theorem log_of_between {n : ℕ} (hn : n ≠ 0) {e : ℤ} {z : ℚ} (hlow : n * 10 ^ e ≤ z)
    (hhigh : z < (n + 1) * 10 ^ e) : Int.log 10 z = Nat.log 10 n + e := by
  have hpos : 0 < z := lt_of_lt_of_le (by positivity) hlow
  have hleft : (Nat.log 10 n : ℤ) + e ≤ Int.log 10 z := by
    refine (Int.zpow_le_iff_le_log (by norm_num) hpos).mp ?_
    push_cast
    rw [zpow_add₀ (by norm_num), zpow_natCast]
    have hpow : ((10 ^ Nat.log 10 n : ℕ) : ℚ) ≤ n := by
      exact_mod_cast Nat.pow_log_le_self 10 hn
    push_cast at hpow
    exact (mul_le_mul_of_nonneg_right hpow (ten_zpow_pos e).le).trans hlow
  have hright : Int.log 10 z < (Nat.log 10 n : ℤ) + e + 1 := by
    refine (Int.lt_zpow_iff_log_lt (by norm_num) hpos).mp ?_
    push_cast
    rw [add_right_comm, zpow_add₀ (by norm_num)]
    have hpow : ((n + 1 : ℕ) : ℚ) ≤ (10 ^ (Nat.log 10 n + 1) : ℕ) := by
      exact_mod_cast Nat.lt_pow_succ_log_self (by norm_num) n
    push_cast at hpow
    refine hhigh.trans_le (mul_le_mul_of_nonneg_right ?_ (ten_zpow_pos e).le)
    exact_mod_cast hpow
  omega

/-- A multiple of a power of ten and half of another one have a common unit that is greater than
any power of ten below both. -/
theorem exists_unit {n : ℕ} (hn : n ≠ 0) {e q place : ℤ} (he : place < e) (hq : place < q) :
    ∃ (m u : ℕ) (g : ℚ), m ≠ 0 ∧ 0 < u ∧ 10 ^ place < g ∧ m * g = n * 10 ^ e
      ∧ u * g = 10 ^ q / 2 := by
  have hstep : ∀ k : ℤ, (10 : ℚ) ^ k = 10 * 10 ^ (k - 1) := by
    intro k
    rw [← zpow_one_add₀ (by norm_num)]
    congr 1
    omega
  rcases lt_or_ge e q with hlt | hge
  · -- The power of ten of the multiple divides half of the other.
    refine ⟨n, 5 * 10 ^ (q - 1 - e).toNat, 10 ^ e, hn, by positivity,
      zpow_lt_zpow_right₀ (by norm_num) he, rfl, ?_⟩
    push_cast
    rw [← zpow_natCast, Int.toNat_of_nonneg (by omega), mul_assoc, ← zpow_add₀ (by norm_num),
      sub_add_cancel, hstep q]
    ring
  · refine ⟨2 * (n * 10 ^ (e - q).toNat), 1, 10 ^ q / 2, by positivity, one_pos, ?_, ?_, by simp⟩
    · calc (10 : ℚ) ^ place ≤ 10 ^ (q - 1) := zpow_le_zpow_right₀ (by norm_num) (by omega)
        _ < 10 ^ q / 2 := by
          rw [hstep q]
          linarith [ten_zpow_pos (q - 1)]
    · push_cast
      rw [← zpow_natCast, Int.toNat_of_nonneg (by omega)]
      calc 2 * ((n : ℚ) * 10 ^ (e - q)) * (10 ^ q / 2) = n * (10 ^ (e - q) * 10 ^ q) := by ring
        _ = n * 10 ^ e := by rw [← zpow_add₀ (by norm_num), sub_add_cancel]

/-- Magnitudes with the same logarithm between the same halves are rounded alike. -/
theorem rounded_of_between {x y : ℚ} (hlog : Int.log 10 x = Int.log 10 y) {j : ℕ}
    (hx : j * (10 ^ ctx.quantum x / 2) < x ∧ x < (j + 1) * (10 ^ ctx.quantum x / 2))
    (hy : j * (10 ^ ctx.quantum x / 2) < y ∧ y < (j + 1) * (10 ^ ctx.quantum x / 2)) :
    ctx.rounded x = ctx.rounded y := by
  have hquantum : ctx.quantum y = ctx.quantum x := by rw [Context.quantum, Context.quantum, hlog]
  have hnearest : ∀ z : ℚ, j * (10 ^ ctx.quantum x / 2) < z ∧ z < (j + 1) * (10 ^ ctx.quantum x / 2)
      → roundHalfEven (z / 10 ^ ctx.quantum x) = (j + 1) / 2 := by
    rintro z ⟨hlow, hhigh⟩
    refine roundHalfEven_of_between ?_ ?_
    · rw [← mul_div_assoc, lt_div_iff₀ (ten_zpow_pos _)]
      linarith
    · rw [← mul_div_assoc, div_lt_iff₀ (ten_zpow_pos _)]
      linarith
  rw [Context.rounded, Context.rounded, hquantum, hnearest x hx, hnearest y hy]

section Near

variable {n : ℕ} {e place : ℤ} {x y : ℚ}

/-- Numbers that lie a little above a multiple of a power of ten are rounded alike. -/
theorem rounded_above (hn : n ≠ 0) (he : place < e) (hq : place < ctx.quantum x)
    (hx : n * 10 ^ e < x) (hx' : x ≤ n * 10 ^ e + 10 ^ place) (hy : n * 10 ^ e < y)
    (hy' : y ≤ n * 10 ^ e + 10 ^ place) : ctx.rounded x = ctx.rounded y := by
  have hplace : (10 : ℚ) ^ place < 10 ^ e := zpow_lt_zpow_right₀ (by norm_num) he
  have hlog : ∀ z : ℚ, n * 10 ^ e < z → z ≤ n * 10 ^ e + 10 ^ place →
      Int.log 10 z = Nat.log 10 n + e :=
    fun z hz hz' => log_of_between hn hz.le (by linarith)
  obtain ⟨m, u, g, _, hu, hg, hm, hhalf⟩ := exists_unit hn he hq
  obtain ⟨j, hj⟩ := exists_half_between m u hu ((ten_zpow_pos place).trans hg)
  rw [hhalf] at hj
  exact rounded_of_between ((hlog x hx hx').trans (hlog y hy hy').symm)
    (hj x (by linarith) (by linarith)) (hj y (by linarith) (by linarith))

/-- Numbers that lie a little below a multiple of a power of ten are rounded alike. -/
theorem rounded_below (hn : n ≠ 0) (he : place < e) (hq : place < ctx.quantum x)
    (hx : n * 10 ^ e - 10 ^ place ≤ x) (hx' : x < n * 10 ^ e)
    (hy : n * 10 ^ e - 10 ^ place ≤ y) (hy' : y < n * 10 ^ e) :
    ctx.rounded x = ctx.rounded y := by
  have hplace : (10 : ℚ) ^ place ≤ 10 ^ (e - 1) := zpow_le_zpow_right₀ (by norm_num) (by omega)
  have hten : (10 : ℚ) ^ e = 10 * 10 ^ (e - 1) := by
    rw [← zpow_one_add₀ (by norm_num)]
    congr 1
    omega
  have hpos := ten_zpow_pos (e - 1)
  obtain ⟨k, rfl⟩ := Nat.exists_eq_succ_of_ne_zero hn
  have hlog : ∃ l, ∀ z : ℚ, (k + 1 : ℕ) * 10 ^ e - 10 ^ place ≤ z → z < (k + 1 : ℕ) * 10 ^ e →
      Int.log 10 z = l := by
    rcases Nat.eq_zero_or_pos k with rfl | hk
    · -- Below a power of ten there is one digit less, a nine.
      refine ⟨_, fun z hz hz' => log_of_between (n := 9) (e := e - 1) (by norm_num) ?_ ?_⟩
      · push_cast at hz ⊢
        linarith
      · push_cast at hz' ⊢
        linarith
    · refine ⟨_, fun z hz hz' => log_of_between (n := k) (e := e) hk.ne' ?_ ?_⟩
      · push_cast at hz
        linarith
      · exact_mod_cast hz'
  obtain ⟨l, hlog⟩ := hlog
  obtain ⟨m, u, g, hm, hu, hg, heq, hhalf⟩ := exists_unit hn he hq
  obtain ⟨i, rfl⟩ := Nat.exists_eq_succ_of_ne_zero hm
  obtain ⟨j, hj⟩ := exists_half_between i u hu ((ten_zpow_pos place).trans hg)
  rw [hhalf] at hj
  push_cast at heq
  refine rounded_of_between ((hlog x hx hx').trans (hlog y hy hy').symm) (hj x ?_ ?_) (hj y ?_ ?_)
  all_goals push_cast at hx hx' hy hy'; linarith

end Near

/-! ## Sums -/

/-- A sum with an operand of smaller magnitude has the sign of the other one. -/
theorem sum_of_magnitude_lt (h : b.magnitude < a.magnitude) :
    (sum a b).coefficient ≠ 0 ∧ (sum a b).negative = a.negative
      ∧ (sum a b).magnitude
        = if a.negative = b.negative then a.magnitude + b.magnitude
          else a.magnitude - b.magnitude := by
  have hb := b.magnitude_nonneg
  have hvalue := toRat_sum a b
  generalize hrest : (if a.negative = b.negative then a.magnitude + b.magnitude
    else a.magnitude - b.magnitude) = rest
  have hpos : 0 < rest := by
    rw [← hrest]
    split <;> linarith
  have hsum : (sum a b).toRat = (if a.negative then -1 else 1) * rest := by
    rw [hvalue, ← hrest]
    cases ha : a.negative <;> cases hb : b.negative <;>
      simp [toRat, ha, hb] <;> ring
  have hmagnitude : (sum a b).magnitude = rest := by
    rw [← abs_toRat, hsum]
    cases a.negative <;> simp [abs_of_pos hpos]
  have hnonzero : (sum a b).coefficient ≠ 0 := by
    rw [Ne, ← magnitude_eq_zero_iff, hmagnitude]
    exact hpos.ne'
  refine ⟨hnonzero, ?_, hmagnitude⟩
  have hsign := toRat_neg_iff (d := sum a b)
  rw [hsum] at hsign
  cases ha : a.negative <;> cases hs : (sum a b).negative <;>
    simp [ha, hs, hnonzero, hpos, hpos.le] at hsign ⊢
  linarith

/-- The place to which a small operand is brought lies below all digits that a sum with the great
one keeps. -/
theorem lt_quantum_of_place {place : ℤ} (hplace : place < d.exponent)
    (hdigits : place + ctx.precision < d.adjusted) {z : ℚ} (hd : d.coefficient ≠ 0)
    (hz : d.magnitude - 10 ^ place ≤ z) : place < ctx.quantum z := by
  have hten : (10 : ℚ) ^ d.adjusted = 10 * 10 ^ (d.adjusted - 1) := by
    rw [← zpow_one_add₀ (by norm_num)]
    congr 1
    omega
  have hpos := ten_zpow_pos (d.adjusted - 1)
  have hsmall : (10 : ℚ) ^ place ≤ 10 ^ (d.adjusted - 1) := by
    refine zpow_le_zpow_right₀ (by norm_num) ?_
    have := d.width_pos
    unfold adjusted
    omega
  have hlow : (10 : ℚ) ^ (d.adjusted - 1) ≤ z := by
    have := le_magnitude hd
    linarith
  have hlog : d.adjusted - 1 ≤ Int.log 10 z :=
    (Int.zpow_le_iff_le_log (by norm_num) (hpos.trans_le hlow)).mp (by exact_mod_cast hlow)
  unfold Context.quantum
  omega

/-- What remains of a small operand decides the rounding of a sum like the operand itself. -/
theorem finish_sum_raise (hctx : ctx.IsSane) (big small : Decimal) :
    SameResult (ctx.finish (sum big (ctx.raise big small))) (ctx.finish (sum big small)) := by
  unfold Context.raise
  dsimp only
  generalize hspare : (if ctx.precision < big.width then (0 : ℤ)
    else big.width - ctx.precision - 1) = spare
  generalize hplace : big.exponent - 1 + spare = place
  split
  case isFalse => exact SameResult.refl _
  case isTrue h =>
    simp only [Bool.and_eq_true, Bool.not_eq_true', decide_eq_true_eq] at h
    obtain ⟨hzero, hsmall⟩ := h
    have hbig : big.coefficient ≠ 0 := by simpa [isZero] using hzero
    by_cases hnone : small.coefficient = 0
    · -- Nothing remains of nothing.
      refine finish_congr hctx (sum_congr rfl ?_)
      rw [toRat_eq_zero_iff.mpr hnone, toRat_eq_zero_iff, if_pos (isZero_iff.mpr hnone)]
    · rw [if_neg (by rwa [isZero_iff])]
      have hbelow : place < big.exponent ∧ place + ctx.precision < big.adjusted := by
        have := big.width_pos
        rw [← hplace, ← hspare]
        unfold adjusted
        split <;> omega
      have hrest : small.magnitude ≤ 10 ^ place :=
        small.magnitude_lt.le.trans (zpow_le_zpow_right₀ (by norm_num) hsmall)
      have hsmallPos := magnitude_pos hnone
      have hpos := ten_zpow_pos place
      have hmark : magnitude ⟨small.negative, 1, place⟩ = 10 ^ place := by simp [magnitude]
      have hless : (10 : ℚ) ^ place < big.magnitude := by
        calc (10 : ℚ) ^ place < 10 ^ big.exponent := zpow_lt_zpow_right₀ (by norm_num) hbelow.1
          _ ≤ big.magnitude := by
            have hone : (1 : ℚ) ≤ big.coefficient := by
              exact_mod_cast Nat.one_le_iff_ne_zero.mpr hbig
            exact le_mul_of_one_le_left (ten_zpow_pos _).le hone
      obtain ⟨hx, hxsign, hxvalue⟩ := sum_of_magnitude_lt (b := ⟨small.negative, 1, place⟩)
        (hmark.trans_lt hless)
      obtain ⟨hy, hysign, hyvalue⟩ := sum_of_magnitude_lt (hrest.trans_lt hless)
      refine finish_congr_of_rounded hctx hx hy (hxsign.trans hysign.symm) ?_
      rw [hxvalue, hyvalue, hmark]
      have hquantum : ∀ z, big.magnitude - 10 ^ place ≤ z → place < ctx.quantum z :=
        fun z hz => lt_quantum_of_place hbelow.1 hbelow.2 hbig hz
      have hvalue : big.magnitude = big.coefficient * 10 ^ big.exponent := rfl
      dsimp only
      split
      · have habove := hquantum (big.magnitude + 10 ^ place) (by linarith)
        rw [hvalue] at habove ⊢
        exact rounded_above hbig hbelow.1 habove (by linarith) (le_refl _) (by linarith)
          (by linarith)
      · have hunder := hquantum (big.magnitude - 10 ^ place) (le_refl _)
        rw [hvalue] at hunder ⊢
        exact rounded_below hbig hbelow.1 hunder (le_refl _) (by linarith) (by linarith)
          (by linarith)

/-- A sum is finished like the exact one. -/
theorem add_concur (hctx : ctx.IsSane) (a b : Decimal) :
    SameResult (ctx.add a b) (ctx.finish (sum a b)) := by
  unfold Context.add
  split
  · exact finish_sum_raise hctx a b
  · split
    · have hcomm : ∀ x y : Decimal, SameResult (ctx.finish (sum x y)) (ctx.finish (sum y x)) :=
        fun x y => finish_congr hctx (by rw [toRat_sum, toRat_sum, add_comm])
      exact ((hcomm _ b).trans (finish_sum_raise hctx b a)).trans (hcomm b a)
    · exact SameResult.refl _

theorem add_congr (hctx : ctx.IsSane) (ha : a.toRat = a'.toRat) (hb : b.toRat = b'.toRat) :
    SameResult (ctx.add a b) (ctx.add a' b') :=
  ((add_concur hctx a b).trans (finish_congr hctx (sum_congr ha hb))).trans
    (add_concur hctx a' b').symm

theorem subtract_congr (hctx : ctx.IsSane) (ha : a.toRat = a'.toRat) (hb : b.toRat = b'.toRat) :
    SameResult (ctx.subtract a b) (ctx.subtract a' b') :=
  add_congr hctx ha (by rw [toRat_negate, toRat_negate, hb])

/-! ## Signs -/

/-- A number whose sign is dropped where it is zero. -/
theorem toRat_withoutSignOfZero (d : Decimal) :
    toRat { d with negative := d.negative && !d.isZero } = d.toRat := by
  refine toRat_eq_iff.mpr ⟨rfl, fun h => ?_⟩
  have hzero : d.isZero = false := by simpa [isZero] using h
  simp [hzero]

theorem plus_congr (hctx : ctx.IsSane) (h : a.toRat = b.toRat) :
    SameResult (ctx.plus a) (ctx.plus b) :=
  finish_congr hctx (by rw [toRat_withoutSignOfZero, toRat_withoutSignOfZero, h])

theorem minus_congr (hctx : ctx.IsSane) (h : a.toRat = b.toRat) :
    SameResult (ctx.minus a) (ctx.minus b) :=
  plus_congr hctx (by rw [toRat_negate, toRat_negate, h])

theorem abs_congr (hctx : ctx.IsSane) (h : a.toRat = b.toRat) :
    SameResult (ctx.abs a) (ctx.abs b) := by
  have hmagnitude : a.magnitude = b.magnitude := magnitude_congr h
  exact finish_congr hctx (toRat_eq_iff.mpr ⟨hmagnitude, fun _ => rfl⟩)

/-! ## Products and quotients -/

theorem toRat_eq_sign_mul (d : Decimal) :
    d.toRat = (if d.negative then -1 else 1) * d.magnitude :=
  toRat_mk d.negative d.coefficient d.exponent

/-- The exact product. -/
theorem toRat_product (a b : Decimal) :
    toRat ⟨a.negative != b.negative, a.coefficient * b.coefficient, a.exponent + b.exponent⟩
      = a.toRat * b.toRat := by
  rw [toRat_mk, toRat_eq_sign_mul a, toRat_eq_sign_mul b, magnitude, magnitude,
    zpow_add₀ (by norm_num)]
  push_cast
  cases a.negative <;> cases b.negative <;> simp <;> ring

theorem multiply_congr (hctx : ctx.IsSane) (ha : a.toRat = a'.toRat) (hb : b.toRat = b'.toRat) :
    SameResult (ctx.multiply a b) (ctx.multiply a' b') :=
  finish_congr hctx (by rw [toRat_product, toRat_product, ha, hb])

theorem toRat_stripZeros (fuel : ℕ) (limit : ℤ) (d : Decimal) :
    (stripZeros fuel limit d).toRat = d.toRat := by
  induction fuel generalizing d with
  | zero => rfl
  | succ fuel ih =>
    unfold stripZeros
    split
    · next h =>
      simp only [Bool.and_eq_true, decide_eq_true_eq, beq_iff_eq] at h
      have hten : (d.coefficient : ℚ) = (d.coefficient / 10 : ℕ) * 10 := by
        exact_mod_cast (Nat.div_mul_cancel (Nat.dvd_of_mod_eq_zero h.2)).symm
      rw [ih, toRat_mk, toRat_eq_sign_mul d, magnitude, hten, zpow_add₀ (by norm_num), zpow_one]
      ring
    · rfl

/-- The power of ten that the last digit of a quotient counts before rounding. -/
def quotientExponent (ctx : Context) (a b : Decimal) : ℤ :=
  a.adjusted - b.adjusted - ctx.precision - 1

/-- A quotient is finished like the integer part of the exact one in units of its last digit, or
like a neighbour that is no tie. -/
theorem divide_concur (hctx : ctx.IsSane) (ha : a.coefficient ≠ 0) (hb : b.coefficient ≠ 0) {x : ℚ}
    (hx : x = a.magnitude / b.magnitude / 10 ^ quotientExponent ctx a b) :
    SameResult (ctx.divide a b) (ctx.finish ⟨a.negative != b.negative,
      if (⌊x⌋₊ : ℚ) = x then ⌊x⌋₊ else if ⌊x⌋₊ % 5 = 0 then ⌊x⌋₊ + 1 else ⌊x⌋₊,
      quotientExponent ctx a b⟩) := by
  have haZero : a.isZero = false := by simpa [isZero] using ha
  have hbZero : b.isZero = false := by simpa [isZero] using hb
  unfold Context.divide
  rw [haZero, hbZero]
  simp only [Bool.false_eq_true, if_false]
  generalize hshift : (b.width : ℤ) - a.width + ctx.precision + 1 = shift
  have hexponent : a.exponent - b.exponent - shift = quotientExponent ctx a b := by
    rw [← hshift]
    unfold quotientExponent adjusted
    omega
  generalize hdividend : (if 0 ≤ shift then a.coefficient * Nat.pow 10 shift.natAbs
    else a.coefficient) = dividend
  generalize hdivisor : (if 0 ≤ shift then b.coefficient
    else b.coefficient * Nat.pow 10 shift.natAbs) = divisor
  have hdivisorPos : divisor ≠ 0 := by
    rw [← hdivisor]
    split
    · exact hb
    · exact Nat.mul_ne_zero hb (pow_pos (by norm_num) _).ne'
  -- The shift brings the quotient of the coefficients to the unit of the last digit.
  have hratio : (dividend : ℚ) / divisor = x := by
    have hbcast : (b.coefficient : ℚ) ≠ 0 := by exact_mod_cast hb
    have hscaled : x = a.coefficient / b.coefficient * 10 ^ shift := by
      rw [hx, ← hexponent, magnitude, magnitude, zpow_sub₀ (by norm_num), zpow_sub₀ (by norm_num)]
      have := (ten_zpow_pos a.exponent).ne'
      have := (ten_zpow_pos b.exponent).ne'
      have := (ten_zpow_pos shift).ne'
      field_simp
    rw [hscaled, ← hdividend, ← hdivisor]
    simp only [Nat.pow_eq]
    rcases le_or_gt 0 shift with h | h
    · have hpow : (10 : ℚ) ^ shift = 10 ^ shift.natAbs := by
        rw [← zpow_natCast, Int.natAbs_of_nonneg h]
      rw [if_pos h, if_pos h, hpow]
      push_cast
      ring
    · have hpow : (10 : ℚ) ^ shift = (10 ^ shift.natAbs)⁻¹ := by
        rw [← zpow_natCast, Int.ofNat_natAbs_of_nonpos h.le, zpow_neg, inv_inv]
      rw [if_neg (not_le.mpr h), if_neg (not_le.mpr h), hpow]
      push_cast
      field_simp
  have hfloor : dividend / divisor = ⌊x⌋₊ := by rw [← hratio, Nat.floor_div_eq_div]
  have hexact : dividend % divisor = 0 ↔ (⌊x⌋₊ : ℚ) = x := by
    rw [← hfloor, ← hratio, eq_div_iff (by exact_mod_cast hdivisorPos),
      ← Nat.dvd_iff_mod_eq_zero, Nat.dvd_iff_div_mul_eq]
    exact_mod_cast Iff.rfl
  rw [hexponent, hfloor]
  by_cases h : (⌊x⌋₊ : ℚ) = x
  · rw [if_pos (hexact.mpr h), if_pos h]
    exact finish_congr hctx (toRat_stripZeros _ _ _)
  · rw [if_neg (hexact.not.mpr h), if_neg h]
    exact SameResult.refl _

theorem adjusted_congr (h : a.toRat = b.toRat) (ha : a.coefficient ≠ 0) :
    a.adjusted = b.adjusted := by
  rw [adjusted_eq_log ha, adjusted_eq_log ((coefficient_eq_zero_congr h).not.mp ha),
    magnitude_congr h]

theorem divide_congr (hctx : ctx.IsSane) (ha : a.toRat = a'.toRat) (hb : b.toRat = b'.toRat) :
    SameResult (ctx.divide a b) (ctx.divide a' b') := by
  by_cases hbzero : b.coefficient = 0
  · have hbzero' := (coefficient_eq_zero_congr hb).mp hbzero
    simp [Context.divide, isZero, hbzero, hbzero', SameResult.refl]
  have hbzero' := (coefficient_eq_zero_congr hb).not.mp hbzero
  by_cases hazero : a.coefficient = 0
  · have hazero' := (coefficient_eq_zero_congr ha).mp hazero
    simp only [Context.divide, isZero, hazero, hazero', beq_self_eq_true, if_true,
      beq_eq_false_iff_ne.mpr hbzero, beq_eq_false_iff_ne.mpr hbzero', Bool.false_eq_true, if_false]
    exact finish_congr hctx (by rw [toRat_eq_zero_iff.mpr rfl, toRat_eq_zero_iff.mpr rfl])
  have hazero' := (coefficient_eq_zero_congr ha).not.mp hazero
  have hexponent : quotientExponent ctx a b = quotientExponent ctx a' b' := by
    unfold quotientExponent
    rw [adjusted_congr ha hazero, adjusted_congr hb hbzero]
  have h := divide_concur hctx hazero hbzero rfl
  rw [magnitude_congr ha, magnitude_congr hb, negative_congr ha hazero, negative_congr hb hbzero,
    hexponent] at h
  exact h.trans (divide_concur hctx hazero' hbzero' rfl).symm

/-- What remains of a division is finished like the exact remainder. -/
theorem remainder_congr (hctx : ctx.IsSane) (ha : a.toRat = a'.toRat) (hb : b.toRat = b'.toRat) :
    SameResult (ctx.remainder a b) (ctx.remainder a' b') := by
  by_cases hbzero : b.coefficient = 0
  · have hbzero' := (coefficient_eq_zero_congr hb).mp hbzero
    simp [Context.remainder, isZero, hbzero, hbzero', SameResult.refl]
  have hbzero' := (coefficient_eq_zero_congr hb).not.mp hbzero
  by_cases hazero : a.coefficient = 0
  · have hazero' := (coefficient_eq_zero_congr ha).mp hazero
    simp only [Context.remainder, isZero, hazero, hazero', beq_self_eq_true, if_true,
      beq_eq_false_iff_ne.mpr hbzero, beq_eq_false_iff_ne.mpr hbzero', Bool.false_eq_true, if_false]
    exact finish_congr hctx (by rw [toRat_eq_zero_iff.mpr rfl, toRat_eq_zero_iff.mpr rfl])
  have hazero' := (coefficient_eq_zero_congr ha).not.mp hazero
  unfold Context.remainder
  simp only [isZero, beq_eq_false_iff_ne.mpr hbzero, beq_eq_false_iff_ne.mpr hbzero',
    beq_eq_false_iff_ne.mpr hazero, beq_eq_false_iff_ne.mpr hazero', Bool.false_eq_true, if_false,
    adjusted_congr ha hazero, adjusted_congr hb hbzero]
  -- Digits that count the same power of ten are divided like the magnitudes.
  have hquotient : ∀ a b : Decimal,
      scaleUp a.coefficient (a.exponent - min a.exponent b.exponent).toNat
          / scaleUp b.coefficient (b.exponent - min a.exponent b.exponent).toNat
        = ⌊a.magnitude / b.magnitude⌋₊ := by
    intro a b
    rw [← Nat.floor_div_eq_div (K := ℚ), magnitude, magnitude,
      ← scaleUp_mul a.coefficient (min_le_left a.exponent b.exponent),
      ← scaleUp_mul b.coefficient (min_le_right a.exponent b.exponent),
      mul_div_mul_right _ _ (ten_zpow_pos _).ne']
  have hrest : ∀ a b : Decimal, toRat ⟨a.negative,
      scaleUp a.coefficient (a.exponent - min a.exponent b.exponent).toNat
          % scaleUp b.coefficient (b.exponent - min a.exponent b.exponent).toNat,
      min a.exponent b.exponent⟩
        = (if a.negative then -1 else 1)
          * (a.magnitude - b.magnitude * ⌊a.magnitude / b.magnitude⌋₊) := by
    intro a b
    rw [toRat_mk, ← hquotient, magnitude, magnitude,
      ← scaleUp_mul a.coefficient (min_le_left a.exponent b.exponent),
      ← scaleUp_mul b.coefficient (min_le_right a.exponent b.exponent)]
    generalize scaleUp a.coefficient _ = x
    generalize scaleUp b.coefficient _ = y
    have hsplit : (x : ℚ) = y * (x / y : ℕ) + (x % y : ℕ) := by
      exact_mod_cast (Nat.div_add_mod x y).symm
    congr 1
    rw [hsplit]
    ring
  refine Concur.ite Iff.rfl (fun _ => finish_congr hctx ?_) fun _ => ?_
  · have hvalue : ∀ a b : Decimal, toRat ⟨a.negative,
        scaleUp a.coefficient (a.exponent - min a.exponent b.exponent).toNat,
        min a.exponent b.exponent⟩ = a.toRat := by
      intro a b
      rw [toRat_mk, scaleUp_mul _ (min_le_left _ _)]
      exact (toRat_eq_sign_mul a).symm
    rw [hvalue, hvalue, ha]
  refine Concur.ite Iff.rfl (fun _ => SameResult.refl _) fun _ => ?_
  refine Concur.ite ?_ (fun _ => SameResult.refl _) fun _ => finish_congr hctx ?_
  · rw [hquotient, hquotient, magnitude_congr ha, magnitude_congr hb]
  · rw [hrest, hrest, magnitude_congr ha, magnitude_congr hb, negative_congr ha hazero]

/-! ## Texts -/

theorem stripZeros_negative (fuel : ℕ) (limit : ℤ) (d : Decimal) :
    (stripZeros fuel limit d).negative = d.negative := by
  induction fuel generalizing d with
  | zero => rfl
  | succ fuel ih =>
    unfold stripZeros
    split
    · exact ih _
    · rfl

/-- No more zeros can be dropped. -/
def IsStripped (limit : ℤ) (d : Decimal) : Prop :=
  d.exponent ≤ limit ∧ (d.coefficient % 10 = 0 → d.exponent = limit)

/-- As many steps as there are digits drop all zeros. -/
theorem stripZeros_isStripped {fuel : ℕ} {limit : ℤ} (hd : d.coefficient ≠ 0)
    (hfuel : d.coefficient < 10 ^ fuel) (hlimit : d.exponent ≤ limit) :
    IsStripped limit (stripZeros fuel limit d) := by
  induction fuel generalizing d with
  | zero => exact absurd (Nat.lt_one_iff.mp hfuel) hd
  | succ fuel ih =>
    unfold stripZeros
    split
    · next h =>
      simp only [Bool.and_eq_true, decide_eq_true_eq, beq_iff_eq] at h
      have hfuel' : d.coefficient < 10 ^ fuel * 10 := by rwa [← pow_succ]
      exact ih (d := ⟨d.negative, d.coefficient / 10, d.exponent + 1⟩) (by dsimp only; omega)
        (by dsimp only; omega) (by dsimp only; omega)
    · next h =>
      simp only [Bool.and_eq_true, decide_eq_true_eq, beq_iff_eq, not_and] at h
      exact ⟨hlimit, fun hten => le_antisymm hlimit (not_lt.mp fun hlt => h hlt hten)⟩

/-- Without more zeros to drop, the value and the sign determine the digits. -/
theorem IsStripped.eq {limit : ℤ} (ha : IsStripped limit a) (hb : IsStripped limit b)
    (hsign : a.negative = b.negative) (hmagnitude : a.magnitude = b.magnitude)
    (hle : a.exponent ≤ b.exponent) : a = b := by
  have hscaled : a.coefficient = b.coefficient * 10 ^ (b.exponent - a.exponent).toNat := by
    have hcast : (a.coefficient : ℚ) * 10 ^ a.exponent
        = scaleUp b.coefficient (b.exponent - a.exponent).toNat * 10 ^ a.exponent := by
      rw [scaleUp_mul _ hle]
      exact hmagnitude
    rw [← scaleUp_eq]
    exact_mod_cast mul_right_cancel₀ (ten_zpow_pos _).ne' hcast
  obtain hlt | heq := hle.lt_or_eq
  · -- The digits with the smaller exponent would still end in a zero.
    have hten : a.coefficient % 10 = 0 := by
      obtain ⟨k, hk⟩ := Nat.exists_eq_succ_of_ne_zero
        (show (b.exponent - a.exponent).toNat ≠ 0 by omega)
      rw [hscaled, hk, pow_succ, ← mul_assoc, Nat.mul_mod_left]
    exact absurd (ha.2 hten ▸ hlt) (not_lt.mpr hb.1)
  · rw [heq, sub_self, Int.toNat_zero, pow_zero, mul_one] at hscaled
    cases a
    cases b
    simp_all

/-- The digits that are kept do not count more than the greatest power of ten. -/
theorem exponent_le_of_finish {r : Decimal} (hctx : ctx.IsSane) (hd : d.coefficient ≠ 0)
    (h : ctx.finish d = .ok r) (hr : r.coefficient ≠ 0) : r.exponent ≤ ctx.maxExponent := by
  have hadjusted := adjusted_le_of_finish hctx hd h hr
  have := r.width_pos
  unfold adjusted at hadjusted
  omega

/-- The digits of the canonical number depend on the value only. -/
theorem reduce_congr (hctx : ctx.IsSane) (h : a.toRat = b.toRat) (ha : a.coefficient ≠ 0) :
    ctx.reduce a = ctx.reduce b := by
  have hb := (coefficient_eq_zero_congr h).not.mp ha
  have hconcur := finish_concur_of_rounded hctx ha hb (negative_congr h ha)
    (by rw [magnitude_congr h])
  unfold Context.reduce
  cases hfinish : ctx.finish a with
  | error s =>
    rw [hfinish] at hconcur
    generalize hfinish' : ctx.finish b = result at hconcur
    cases hconcur with
    | error hst => rw [hst]
  | ok r =>
    rw [hfinish] at hconcur
    generalize hfinish' : ctx.finish b = result at hconcur
    cases hconcur with
    | @ok _ r' hr =>
      have hzero : r.coefficient = 0 ↔ r'.coefficient = 0 := by
        rw [← magnitude_eq_zero_iff, hr.2, magnitude_eq_zero_iff]
      by_cases hrzero : r.coefficient = 0
      · simp [isZero, hrzero, hzero.mp hrzero, hr.1]
      · have hrzero' := hzero.not.mp hrzero
        have hstripped := stripZeros_isStripped hrzero r.coefficient_lt
          (exponent_le_of_finish hctx ha hfinish hrzero)
        have hstripped' := stripZeros_isStripped hrzero' r'.coefficient_lt
          (exponent_le_of_finish hctx hb hfinish' hrzero')
        have hsign : (stripZeros r.width ctx.maxExponent r).negative
            = (stripZeros r'.width ctx.maxExponent r').negative := by
          rw [stripZeros_negative, stripZeros_negative, hr.1]
        have hmagnitude : (stripZeros r.width ctx.maxExponent r).magnitude
            = (stripZeros r'.width ctx.maxExponent r').magnitude := by
          rw [← abs_toRat, ← abs_toRat, toRat_stripZeros, toRat_stripZeros, abs_toRat, abs_toRat,
            hr.2]
        dsimp only
        rw [if_neg (by rwa [isZero_iff]), if_neg (by rwa [isZero_iff])]
        congr 1
        rcases le_total (stripZeros r.width ctx.maxExponent r).exponent
          (stripZeros r'.width ctx.maxExponent r').exponent with hle | hle
        · exact hstripped.eq hstripped' hsign hmagnitude hle
        · exact (hstripped'.eq hstripped hsign.symm hmagnitude.symm hle).symm

/-- The text of a number depends on its value only. -/
theorem toText_congr (h : a.toRat = b.toRat) : a.toText = b.toText := by
  unfold toText
  rw [isZero_congr h]
  split
  · rfl
  · next hzero =>
    rw [isZero_iff, ← coefficient_eq_zero_congr h] at hzero
    rw [reduce_congr Context.standard_isSane h hzero]

end Decimal

end Groundplan
