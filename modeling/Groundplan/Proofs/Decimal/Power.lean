import Groundplan.Decimal.Power
import Groundplan.Proofs.Decimal.Arithmetic

/-!
# Powers of Values

A power with a whole exponent is computed by operations that respect values, and the spare digits it
is computed with depend on the value of the exponent only.  So it respects values as well.  Other
powers are computed with as many digits as the base shows, and nothing is said of them.

## Main Definitions

- `Decimal.SamePower`: powers with the same value, or refused alike
- `Decimal.RespectsValues`: operations that cannot tell numbers with the same value apart
- `Decimal.Context.powerOfWhole`: powers with whole exponents only

## Main Statements

- `Decimal.power_congr_of_whole`: powers with whole exponents
-/

namespace Groundplan

namespace Decimal

variable {ctx : Context} {a a' b b' base base' running running' : Decimal}

/-- Refusals with the same signal, or because the power of a zero is infinite. -/
inductive Refusal.SameSignal : Refusal → Refusal → Prop
  | signal (s : Signal) : SameSignal (.signal s) (.signal s)
  | infinite (negative negative' : Bool) : SameSignal (.infinite negative) (.infinite negative')

/-- Powers with the same value, or refused alike. -/
abbrev SamePower : Except Refusal Decimal → Except Refusal Decimal → Prop :=
  Concur Refusal.SameSignal fun r r' => r.toRat = r'.toRat

/-- Of numbers with the same values the powers have the same value or are refused alike. -/
def RespectsValues (power : Decimal → Decimal → Except Refusal Decimal) : Prop :=
  ∀ a a' b b', a.toRat = a'.toRat → b.toRat = b'.toRat → SamePower (power a b) (power a' b')

/-! ## Repeated squaring -/

/-- A number that counts tens is even. -/
theorem isOdd_eq (d : Decimal) : isOdd d = (d.truncated % 2 == 1) := by
  unfold isOdd
  split
  · next h =>
    obtain ⟨k, hk⟩ : ∃ k, d.exponent.toNat = k + 1 := ⟨d.exponent.toNat - 1, by omega⟩
    have heven : d.truncated % 2 = 0 := by
      rw [truncated, if_pos h.le, scaleUp_eq, hk, pow_succ, ← mul_assoc]
      omega
    rw [heven]
    rfl
  · rfl

theorem isOdd_congr (h : a.toRat = b.toRat) : isOdd a = isOdd b := by
  rw [isOdd_eq, isOdd_eq, truncated_congr h]

theorem squareThrough_congr (hctx : ctx.IsSane) (bits : List Bool)
    (hbase : base.toRat = base'.toRat) (hrunning : running.toRat = running'.toRat) :
    SameResult (squareThrough ctx base running bits) (squareThrough ctx base' running' bits) := by
  induction bits generalizing running running' with
  | nil => exact .ok hrunning
  | cons bit bits ih =>
    unfold squareThrough
    rw [isZero_congr hrunning]
    refine .ite Iff.rfl (fun _ => .pure hrunning) fun _ => ?_
    refine (multiply_congr hctx hrunning hrunning).bind fun squared squared' _ _ hsquared => ?_
    refine .ite Iff.rfl (fun _ => ?_) fun _ => ih hsquared
    exact (multiply_congr hctx hsquared hbase).bind fun _ _ _ _ hnext => ih hnext

/-- More digits keep a context sane. -/
theorem Context.IsSane.moreDigits (hctx : ctx.IsSane) (spare : ℕ) :
    Context.IsSane { ctx with precision := ctx.precision + spare } := by
  have hrange := hctx.range
  refine ⟨Nat.add_pos_left hctx.precision spare, ?_⟩
  simp only [Context.tiniest] at hrange ⊢
  push_cast
  omega

theorem wholePower_congr (hctx : ctx.IsSane) (ha : a.toRat = a'.toRat) (hb : b.toRat = b'.toRat)
    (hbzero : b.coefficient ≠ 0) :
    SameResult (wholePower ctx a b) (wholePower ctx a' b') := by
  have hspare : (b.width + b.exponent + 2).toNat = (b'.width + b'.exponent + 2).toNat := by
    have hadjusted := adjusted_congr hb hbzero
    unfold adjusted at hadjusted
    omega
  unfold wholePower
  dsimp only
  rw [hspare, negative_congr hb hbzero, truncated_congr hb]
  have hwork := hctx.moreDigits (b'.width + b'.exponent + 2).toNat
  refine .ite Iff.rfl (fun _ => ?_) fun _ => squareThrough_congr hwork _ ha ha
  refine (divide_congr (hwork.moreDigits 1) rfl ha).bind fun _ _ _ _ hinverse => ?_
  exact squareThrough_congr (hwork.moreDigits 1) _ hinverse hinverse

/-! ## Magnitudes of powers -/

theorem logMagnitude_congr (ha : a.toRat = a'.toRat) (hzero : a.coefficient ≠ 0)
    (hone : a.toRat ≠ 1) : logMagnitude a = logMagnitude a' := by
  have hgap : (sum a (ofInt (-1))).coefficient ≠ 0 := by
    rw [Ne, ← toRat_eq_zero_iff, toRat_sum, toRat_ofInt]
    intro h
    push_cast at h
    exact hone (by linarith)
  unfold logMagnitude
  rw [adjusted_congr ha hzero, adjusted_congr (sum_congr ha rfl) hgap]

theorem isExtreme_congr (ha : a.toRat = a'.toRat) (hzero : a.coefficient ≠ 0)
    (hone : a.toRat ≠ 1) (hb : b.toRat = b'.toRat) (hbzero : b.coefficient ≠ 0) :
    isExtreme a b = isExtreme a' b' := by
  unfold isExtreme
  rw [logMagnitude_congr ha hzero hone, adjusted_congr hb hbzero]

/-- Zeros behind the point leave the value one. -/
theorem toRat_oneWithZeros (ctx : Context) (negative : Bool) (zeros : ℕ) :
    (oneWithZeros ctx negative zeros).toRat = if negative then -1 else 1 := by
  unfold oneWithZeros
  generalize min zeros (ctx.precision - 1) = shown
  rw [toRat_mk, Nat.pow_eq, Nat.cast_pow, Nat.cast_ofNat, ← zpow_natCast,
    ← zpow_add₀ (by norm_num), add_neg_cancel, zpow_zero, mul_one]

/-! ## Powers -/

/-- Numbers with the same magnitude have the same value if they are given one sign. -/
theorem toRat_withNegative_congr (negative : Bool) (h : a.magnitude = b.magnitude) :
    toRat { a with negative := negative } = toRat { b with negative := negative } :=
  toRat_eq_iff.mpr ⟨h, fun _ => rfl⟩

/-- Of numbers with the same values the powers have the same value or are refused alike, if the
exponent is whole. -/
theorem power_congr_of_whole (hctx : ctx.IsSane) (ha : a.toRat = a'.toRat)
    (hb : b.toRat = b'.toRat) (hwhole : b.isWhole = true) :
    SamePower (ctx.power a b) (ctx.power a' b') := by
  have hmagnitude := toRat_withNegative_congr false (magnitude_congr ha)
  unfold Context.power
  dsimp only
  rw [isZero_congr ha, isZero_congr hb, ← isWhole_congr hb, hwhole, isOdd_congr hb]
  by_cases hazero : a.coefficient = 0
  · -- The signs of zeros differ, and so may the signs of infinite powers.
    have hazero' : a'.isZero = true := isZero_iff.mpr ((coefficient_eq_zero_congr ha).mp hazero)
    rw [if_pos hazero', if_pos hazero']
    refine .ite Iff.rfl (fun _ => .error (.signal _)) fun hbzero => ?_
    rw [isZero_iff, ← coefficient_eq_zero_congr hb] at hbzero
    rw [negative_congr hb hbzero]
    refine .ite Iff.rfl (fun _ => .error (.infinite _ _)) fun _ => .ok ?_
    rw [toRat_eq_zero_iff.mpr rfl, toRat_eq_zero_iff.mpr rfl]
  have hazero' : a'.isZero = false := by
    rwa [← Bool.not_eq_true, isZero_iff, ← coefficient_eq_zero_congr ha]
  rw [hazero', negative_congr ha hazero]
  simp only [Bool.false_eq_true, if_false, Bool.not_true, Bool.and_false, Bool.and_true, if_true]
  refine .ite Iff.rfl (fun _ => .ok rfl) fun hbzero => ?_
  rw [isZero_iff, ← coefficient_eq_zero_congr hb] at hbzero
  rw [negative_congr hb hbzero]
  refine .ite ?_ (fun _ => ?_) fun hone => ?_
  · rw [equals_iff, equals_iff, hmagnitude]
  · -- Whatever number of zeros is found, the value is one.
    refine .ite Iff.rfl (fun _ => .ok rfl) fun _ => ?_
    generalize ctx.multiply b (ofInt (-a.exponent)) = scale
    generalize ctx.multiply b' (ofInt (-a'.exponent)) = scale'
    cases scale <;> cases scale' <;>
      exact .ok ((toRat_oneWithZeros _ _ _).trans (toRat_oneWithZeros _ _ _).symm)
  rw [equals_iff, toRat_ofNat, Nat.cast_one] at hone
  refine .ite ?_ (fun _ => ?_) fun _ => ?_
  · rw [isExtreme_congr hmagnitude hazero hone hb hbzero]
  · rw [adjusted_congr hmagnitude hazero]
    refine .ite Iff.rfl (fun _ => .error (.signal _)) fun _ => .ok rfl
  · refine Concur.mapError (E := Eq) ?_ fun s _ hs => hs ▸ .signal s
    refine (wholePower_congr hctx hmagnitude hb hbzero).bind fun _ _ _ _ hvalue => ?_
    exact finish_congr hctx (toRat_withNegative_congr _ (magnitude_congr hvalue))

/-- Powers with whole exponents; all other exponents are refused. -/
def Context.powerOfWhole (ctx : Context) (base power : Decimal) : Except Refusal Decimal :=
  if power.isWhole then ctx.power base power else .error (.signal .invalidOperation)

theorem powerOfWhole_respectsValues (hctx : ctx.IsSane) : RespectsValues ctx.powerOfWhole := by
  intro a a' b b' ha hb
  unfold Context.powerOfWhole
  rw [isWhole_congr hb]
  refine .ite Iff.rfl (fun hwhole => ?_) fun _ => .error (.signal _)
  exact power_congr_of_whole hctx ha hb ((isWhole_congr hb).trans hwhole)

end Decimal

end Groundplan
