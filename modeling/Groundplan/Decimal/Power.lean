import Groundplan.Decimal.Context

/-!
# Powers of decimals

A power with a whole exponent is computed by repeated squaring with enough spare digits that the
final rounding decides the result.  Any other power is the exponential of `y · ln x`, computed in
fixed-point arithmetic with the spare digits that its magnitude asks for.

## Main definitions

- `Refusal`: why a power has no finite value
- `Context.power`: the power rounded to the context
-/

namespace Groundplan

namespace Decimal

/-! ## Whole exponents -/

/-- Why a power is not a number. -/
inductive Refusal where
  /-- A condition of the arithmetic was raised. -/
  | signal (s : Signal)
  /-- The power of a zero is infinite; the field tells whether it is below zero. -/
  | infinite (negative : Bool)
deriving DecidableEq, Repr

/-- Whether a whole number is odd. -/
def isOdd (d : Decimal) : Bool :=
  if 0 < d.exponent then false else d.truncated % 2 == 1

/-- The binary digits of a number below the leading one, most significant first. -/
private def lowerBits (n : Nat) : List Bool :=
  ((Nat.toDigits 2 n).drop 1).map (· == '1')

/-- Square for every binary digit and multiply by the base where the digit is one.  A running
power that has vanished stays as it is. -/
def squareThrough (ctx : Context) (base running : Decimal) :
    List Bool → Except Signal Decimal
  | [] => .ok running
  | bit :: bits => do
    if running.isZero then return running
    let squared ← ctx.multiply running running
    let next ← if bit then ctx.multiply squared base else pure squared
    squareThrough ctx base next bits

/-- The power with a whole exponent, before the final rounding. -/
def wholePower (ctx : Context) (base power : Decimal) : Except Signal Decimal := do
  -- The squarings lose at most as many digits as the exponent has.
  let spare := (power.width + power.exponent + 2).toNat
  let work : Context := { ctx with precision := ctx.precision + spare }
  if power.negative then
    -- The inverse is rounded too, which costs one more digit.
    let work : Context := { work with precision := work.precision + 1 }
    let inverse ← work.divide (ofNat 1) base
    squareThrough work inverse inverse (lowerBits power.truncated)
  else
    squareThrough work base base (lowerBits power.truncated)

/-! ## Logarithm and exponential in fixed point -/

/-- The sum `z + z³/3 + z⁵/5 + …` for `z = term / unit`, where `square` is `z²` in the same unit;
`fuel` bounds the number of terms. -/
private def oddSeries (fuel : Nat) (unit square term : Int) (divisor : Nat) : Int :=
  match fuel with
  | 0 => 0
  | fuel + 1 =>
    if term = 0 then 0
    else term / divisor + oddSeries fuel unit square (term * square / unit) (divisor + 2)

/-- The natural logarithm of `p / q` in units of `1 / unit`, for a quotient near one. -/
private def logRatio (unit : Int) (p q : Int) : Int :=
  let z := (p - q) * unit / (p + q)
  2 * oddSeries (2 * unit.natAbs.log2 + 8) unit (z * z / unit) z 1

/-- `ln 2`. -/
private def logTwo (unit : Int) : Int :=
  logRatio unit 2 1

/-- `ln 10`, as three times `ln 2` and the logarithm of `5 / 4`. -/
private def logTen (unit : Int) : Int :=
  3 * logTwo unit + logRatio unit 5 4

/-- The natural logarithm of a positive number.  Its digits are read as a number between one and
ten, which is divided by the power of two that brings it below three halves. -/
private def logarithm (unit : Int) (d : Decimal) : Int :=
  let scale : Nat := Nat.pow 10 (d.width - 1)
  let halvings : Nat :=
    if 2 * d.coefficient < 3 * scale then 0
    else if 2 * d.coefficient < 6 * scale then 1
    else if 2 * d.coefficient < 12 * scale then 2
    else 3
  logRatio unit d.coefficient (scale * Nat.pow 2 halvings)
    + halvings * logTwo unit + d.adjusted * logTen unit

/-- The sum `term + term · t / k + …` of the exponential series from its `k`-th term on. -/
private def exponentialSeries (fuel : Nat) (unit t term : Int) (k : Nat) : Int :=
  match fuel with
  | 0 => term
  | fuel + 1 =>
    if term = 0 then 0
    else term + exponentialSeries fuel unit t (term * t / (unit * k)) (k + 1)

/-- The power with any exponent of a positive base, with at least twenty more digits than the
context keeps. -/
private def realPower (ctx : Context) (base power : Decimal) : Decimal :=
  -- A power of ten in `y · ln x` costs a place behind the point.
  let places : Nat := max base.width ctx.precision + 40 + power.adjusted.natAbs
  let unit : Int := Nat.pow 10 places
  let ln := logarithm unit base
  let low : Nat := Nat.pow 10 (-power.exponent).toNat
  let magnitude := scaleUp power.coefficient power.exponent.toNat
  let scaled := ln * magnitude / low
  let t := if power.negative then -scaled else scaled
  let ten := logTen unit
  -- Whole multiples of `ln 10` make the exponent, and the rest the digits.
  let whole := t / ten
  let fraction := t - whole * ten
  let value := exponentialSeries (unit.natAbs.log2 + 8) unit fraction unit 1
  ⟨false, value.natAbs, whole - places⟩

/-! ## The power -/

/-- A power of ten below which `|log₁₀ x|` does not lie, for a positive `x` other than one. -/
def logMagnitude (x : Decimal) : Int :=
  let t := x.adjusted
  if 0 < t then (digitsOf t.natAbs).length - 1
  else if t < -1 then (digitsOf (t + 1).natAbs).length - 1
  else
    -- Next to one, the logarithm is about as great as the distance from one.
    let gap := (sum x (ofInt (-1))).adjusted
    if t = 0 then gap - 2 else gap - 1

/-- Whether `x ^ y` lies far outside the exponent range of any context in use, for a positive `x`
other than one. -/
def isExtreme (x y : Decimal) : Bool :=
  7 < logMagnitude x + y.adjusted

/-- One, with as many zeros behind the point as fit when they are `zeros` many. -/
def oneWithZeros (ctx : Context) (negative : Bool) (zeros : Nat) : Decimal :=
  let shown := min zeros (ctx.precision - 1)
  ⟨negative, Nat.pow 10 shown, -(shown : Int)⟩

/-- `base ^ power` rounded to the context.  A power of one keeps the scale that repeated
multiplication would give it; the power of a negative number needs a whole exponent; zero to the
power zero is refused. -/
def Context.power (ctx : Context) (base power : Decimal) : Except Refusal Decimal :=
  let lift (r : Except Signal Decimal) : Except Refusal Decimal := r.mapError .signal
  let whole := power.isWhole
  let negative := base.negative && whole && isOdd power
  let magnitude : Decimal := { base with negative := false }
  if base.isZero then
    if power.isZero then .error (.signal .invalidOperation)
    else if power.negative then .error (.infinite negative)
    else .ok ⟨negative, 0, 0⟩
  else if base.negative && !whole then .error (.signal .invalidOperation)
  else if power.isZero then .ok (ofNat 1)
  else if magnitude.equals (ofNat 1) then
    -- The value is one, and only the number of zeros is to be found.
    if !whole then .ok (oneWithZeros ctx negative ctx.precision)
    else if power.negative then .ok ⟨negative, 1, 0⟩
    else
      -- A scale that is out of range is greater than any number of zeros that fits.
      match ctx.multiply power (ofInt (-base.exponent)) with
      | .error _ => .ok (oneWithZeros ctx negative ctx.precision)
      | .ok scale =>
        let fits := scale.less (ofNat ctx.precision)
        .ok (oneWithZeros ctx negative (if fits then scale.truncated else ctx.precision))
  else if isExtreme magnitude power then
    if (magnitude.adjusted < 0) = power.negative then .error (.signal .overflow)
    else .ok ⟨negative, 0, ctx.tiniest⟩
  else
    lift do
      let value ← if whole then wholePower ctx magnitude power
        else pure (realPower ctx magnitude power)
      ctx.finish { value with negative := negative }

end Decimal

end Groundplan
